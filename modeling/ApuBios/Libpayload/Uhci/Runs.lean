import ApuBios.Library.Alternation
import ApuBios.Libpayload.Uhci.Ring

/-!
# Runs of interrupt queues of the UHCI driver

The packets that have been transferred and not been returned are those of the descriptors between the
next one to be read and the next one to be executed. The toggles of the descriptors are those that they
have been created with.
-/

namespace ApuBios.Uhci

open Usb Transition

variable {P : Type*} {n r x i m : ℕ} {q q' : IntrQ P} {e : Event P} {es : List (Event P)} {t : Bool}

namespace IntrQ

/-! ### Packets that are waiting -/

/-- The packet of a descriptor that has been executed. -/
def slot (q : IntrQ P) (i : ℕ) : List P := if (q.tds i).Ok then [q.chunk i] else []

/-- The packets of the descriptors that have been executed and not been read. -/
def waiting (n r x : ℕ) (q : IntrQ P) : List P :=
  (List.range' r (x - r)).flatMap fun m => q.slot (m % n)

lemma slot_congr (hctrlsts : (q'.tds i).ctrlsts = (q.tds i).ctrlsts) (hchunk : q'.chunk i = q.chunk i) :
    q'.slot i = q.slot i := by
  have hok : (q'.tds i).Ok ↔ (q.tds i).Ok := by rw [Td.Ok, Td.Ok, hctrlsts]
  rw [slot, slot, hchunk]
  exact if_congr hok rfl rfl

lemma waiting_congr (h : ∀ m, r ≤ m → m < x → q'.slot (m % n) = q.slot (m % n)) :
    waiting n r x q' = waiting n r x q := by
  refine List.flatMap_congr fun m hm => ?_
  rw [List.mem_range'_1] at hm
  exact h m hm.1 (by omega)

@[simp] lemma waiting_self : waiting n x x q = [] := by simp [waiting]

/-- The next packet to be read is the first one that is waiting. -/
lemma waiting_of_lt (h : r < x) : waiting n r x q = q.slot (r % n) ++ waiting n (r + 1) x q := by
  have hlen : x - r = x - (r + 1) + 1 := by omega
  rw [waiting, hlen, List.range'_succ, List.flatMap_cons]
  rfl

/-- The packet that has come in last is the last one that is waiting. -/
lemma waiting_succ (h : r ≤ x) : waiting n r (x + 1) q = waiting n r x q ++ q.slot (x % n) := by
  have hlen : x + 1 - r = x - r + 1 := by omega
  have hlast : r + (x - r) = x := by omega
  rw [waiting, hlen, List.range'_1_concat, List.flatMap_append, hlast]
  simp [waiting]

/-! ### One event -/

/-- The queue is a ring of which `r` descriptors have been read and `x` have been executed. -/
structure At (n r x : ℕ) (q : IntrQ P) : Prop where
  ring : Ring n r q
  progress : Progress n r x q

/-- What an event changes: the packets that are waiting are those that have come in and have not been
returned, and the descriptors keep their tokens. -/
structure Moves (n r x : ℕ) (q : IntrQ P) (e : Event P) (r' x' : ℕ) (q' : IntrQ P) : Prop where
  packets : waiting n r x q ++ q.succeededBy e = q.returnedBy e ++ waiting n r' x' q'
  executed : q.executedBy e = (List.range' x (x' - x)).map fun m => (q.tds (m % n)).toggle
  token : ∀ i, (q'.tds i).token = (q.tds i).token
  le : x ≤ x'
  poll : e = .poll → x' = x ∧ r' = min (r + 1) x

lemma returnedBy_of_active (h : (q.tds q.lastread).Active) : q.returnedBy .poll = [] := by
  rw [returnedBy, poll, if_neg (not_not.mpr h)]
  split <;> rfl

lemma returnedBy_of_inactive (h : ¬(q.tds q.lastread).Active) :
    q.returnedBy .poll = q.advanced.slot q.lastread := by
  rw [returnedBy, poll, if_pos h]
  change (Option.map Prod.snd (if (q.advanced.tds q.lastread).Ok then _ else none)).toList = _
  rw [slot]
  split <;> rfl

/-- Requeueing a descriptor does not touch the packets that are waiting. -/
lemma At.slot_advanced (h : At n r x q) (hn : 2 ≤ n) (hinactive : ¬(q.tds q.lastread).Active)
    (hover : ¬q.Overruns) (hm : r ≤ m) (hm' : m < x) : q.advanced.slot (m % n) = q.slot (m % n) := by
  have hlt := h.progress.lt_of_not_overruns h.ring hn hinactive hover
  obtain ⟨-, -, -, -, -, hchunk⟩ := requeue_frame q q.previous
  refine slot_congr (requeue_ctrlsts ?_) (congrFun hchunk _)
  rw [h.ring.previous_eq hn]
  intro hmod
  have := eq_of_mod_eq (a := r) (by omega) (by omega) (by omega) (by omega) hmod
  omega

lemma At.poll (h : At n r x q) (hn : 2 ≤ n) (hover : ¬q.Overruns) :
    ∃ r', At n r' x q.poll.2 ∧ Moves n r x q .poll r' x q.poll.2 := by
  by_cases hactive : (q.tds q.lastread).Active
  · have hx := (h.progress.lastread_active h.ring hn).mp hactive
    have hreturned := returnedBy_of_active hactive
    have hmin : r = min (r + 1) x := by omega
    rcases poll_of_active hactive with heq | ⟨hnone, heq⟩
    · rw [heq]
      refine ⟨r, h, ?_, by simp [executedBy], fun _ => rfl, le_rfl, fun _ => ⟨rfl, hmin⟩⟩
      simp [hreturned, succeededBy]
    · rw [heq]
      obtain ⟨htotal, hlastread, hlast, hnext, hterminated⟩ := h.ring
      obtain ⟨hle, hle', hact, -⟩ := h.progress
      refine ⟨r, ⟨⟨htotal, hlastread, hlast, hnext, hterminated⟩, hle, hle', hact, ?_⟩, ?_,
        by simp [executedBy], fun _ => rfl, le_rfl, fun _ => ⟨rfl, hmin⟩⟩
      · refine .inr (.inl ⟨?_, ?_⟩)
        · rw [hx]
          exact Uhci.le_last hn
        · rw [hx]
          exact congrArg some hlastread
      · rw [hreturned, succeededBy, List.append_nil, List.nil_append]
        rfl
  · have hlt : r < x :=
      lt_of_le_of_ne h.progress.le fun heq =>
        hactive ((h.progress.lastread_active h.ring hn).mpr heq.symm)
    rw [poll_of_inactive hactive]
    refine ⟨r + 1, ⟨h.ring.advanced hn, h.progress.advanced h.ring hn hactive hover⟩, ?_,
      by simp [executedBy], fun _ => requeue_token, le_rfl, fun _ => ⟨rfl, by omega⟩⟩
    have hrest : waiting n (r + 1) x q.advanced = waiting n (r + 1) x q :=
      waiting_congr fun m hm hm' => h.slot_advanced hn hactive hover (by omega) hm'
    rw [returnedBy_of_inactive hactive, hrest, h.ring.lastread,
      h.slot_advanced hn hactive hover le_rfl hlt, succeededBy, List.append_nil]
    exact waiting_of_lt hlt

lemma At.complete (h : At n r x q) (hn : 2 ≤ n) {ctrlsts : ℕ} {packet : P} {stays : Bool}
    (he : q.step (.complete ctrlsts packet stays) = some q') :
    At n r (x + 1) q' ∧ Moves n r x q (.complete ctrlsts packet stays) r (x + 1) q' := by
  obtain ⟨i, hi, hactive, hctrlsts, rfl⟩ := step_complete he
  obtain ⟨hx, rfl⟩ := h.progress.complete_index hi hactive
  have hle := h.progress.le
  refine ⟨⟨h.ring.complete .., h.progress.complete h.ring hn packet stays hctrlsts hx⟩, ?_, ?_, ?_,
    Nat.le_succ x, nofun⟩
  · have hold : waiting n r x (q.complete (x % n) ctrlsts packet stays) = waiting n r x q := by
      refine waiting_congr fun m hm hm' => ?_
      have hne : m % n ≠ x % n := fun hmod =>
        hm'.ne (eq_of_mod_eq_of_le_last hn (by omega) (by omega) (by omega) hx hmod)
      exact slot_congr (by rw [complete_of_ne hne]) (Function.update_of_ne hne ..)
    rw [waiting_succ hle, hold, returnedBy, List.nil_append, succeededBy]
    simp only [slot, Td.Ok, complete_self]
    simp [IntrQ.complete]
  · rw [executedBy, hi]
    simp
  · intro j
    rcases eq_or_ne j (x % n) with rfl | hne
    · rw [complete_self]
    · rw [complete_of_ne hne]

/-! ### Runs -/

/-- What a run changes: the packets that have come in are those that have been returned and those that
are waiting, and the descriptors have been executed in the order of the ring. -/
structure Moved (n r x : ℕ) (q : IntrQ P) (es : List (Event P)) (r' x' : ℕ) (q' : IntrQ P) : Prop where
  packets : waiting n r x q ++ outputs step succeededBy q es =
    outputs step returnedBy q es ++ waiting n r' x' q'
  executed : outputs step executedBy q es =
    (List.range' x (x' - x)).map fun m => (q.tds (m % n)).toggle
  token : ∀ i, (q'.tds i).token = (q.tds i).token
  le : x ≤ x'

lemma Moves.cons {q'' : IntrQ P} {r' x' r'' x'' : ℕ} (h : Moves n r x q e r' x' q')
    (he : q.step e = some q') (hrest : Moved n r' x' q' es r'' x'' q'') :
    Moved n r x q (e :: es) r'' x'' q'' := by
  have htoggle (i : ℕ) : (q'.tds i).toggle = (q.tds i).toggle := by rw [Td.toggle, h.token, Td.toggle]
  have hle := h.le
  have hle' := hrest.le
  refine ⟨?_, ?_, fun i => (hrest.token i).trans (h.token i), hle.trans hle'⟩
  · simp only [outputs, he, Option.elim_some]
    rw [← List.append_assoc, h.packets, List.append_assoc, hrest.packets, List.append_assoc]
  · simp only [outputs, he, Option.elim_some]
    rw [h.executed, hrest.executed]
    simp only [htoggle]
    rw [← List.map_append]
    congr 1
    have hsplit : x'' - x = (x' - x) + (x'' - x') := by omega
    have hmid : x' = x + 1 * (x' - x) := by omega
    rw [hsplit, ← List.range'_append, ← hmid]

/-- Unless a poll requeues a descriptor that has been executed and not been read, nothing is lost. -/
lemma At.run (h : At n r x q) (hn : 2 ≤ n)
    (hover : Meets step (fun q e => e = .poll → ¬q.Overruns) q es) (he : exec step q es = some q') :
    ∃ r' x', At n r' x' q' ∧ Moved n r x q es r' x' q' := by
  induction es generalizing q r x with
  | nil =>
    obtain rfl := Option.some.inj he
    exact ⟨r, x, h, by simp [outputs], by simp [outputs], fun _ => rfl, le_rfl⟩
  | cons e es ih =>
    obtain ⟨q₁, hq₁, hrest⟩ := exec_cons he
    rw [Meets, hq₁] at hover
    obtain ⟨r₁, x₁, hat, hmoves⟩ : ∃ r₁ x₁, At n r₁ x₁ q₁ ∧ Moves n r x q e r₁ x₁ q₁ := by
      cases e with
      | poll =>
        obtain rfl := Option.some.inj hq₁
        obtain ⟨r₁, hr₁⟩ := h.poll hn (hover.1 rfl)
        exact ⟨r₁, x, hr₁⟩
      | complete ctrlsts packet stays => exact ⟨r, x + 1, h.complete hn hq₁⟩
    obtain ⟨r', x', hat', hmoved⟩ := ih hat hover.2 hrest
    exact ⟨r', x', hat', hmoves.cons hq₁ hmoved⟩

/-- Polling reads one packet after the other, until none is left. -/
lemma At.polls (h : At n r x q) (hn : 2 ≤ n) {k : ℕ} (hk : x ≤ r + k)
    (hover : Meets step (fun q e => e = .poll → ¬q.Overruns) q (List.replicate k .poll))
    (he : exec step q (List.replicate k .poll) = some q') :
    Moved n r x q (List.replicate k .poll) x x q' := by
  induction k generalizing q r with
  | zero =>
    obtain rfl := Option.some.inj he
    obtain rfl : r = x := le_antisymm h.progress.le hk
    exact ⟨by simp [outputs], by simp [outputs], fun _ => rfl, le_rfl⟩
  | succ k ih =>
    rw [List.replicate_succ] at hover he ⊢
    obtain ⟨q₁, hq₁, hrest⟩ := exec_cons he
    rw [Meets, hq₁] at hover
    obtain rfl := Option.some.inj hq₁
    obtain ⟨r₁, hat, hmoves⟩ := h.poll hn (hover.1 rfl)
    obtain ⟨-, hr₁⟩ := hmoves.poll rfl
    exact hmoves.cons hq₁ (ih hat (by omega) hover.2 hrest)

/-! ### The queue that is created -/

/-- The descriptors up to the `i`th one are active, linked in order, and have alternating toggles. -/
structure Built (t : Bool) (i : ℕ) (tds : ℕ → Td) : Prop where
  ptr : ∀ k < i, (tds k).ptr = some (k + 1)
  active : ∀ k < i, (tds k).Active
  toggle : ∀ k < i, (tds k).toggle = (t ^^ k.bodd)

/-- The fields of a token do not overlap. -/
lemma toggle_token (ep : Endpoint) (address : Fin 128) (reqsize : ℕ) :
    (pidOf ep.direction ||| ((address : ℕ) <<< tdDevaddrShift ||| (ep.endpoint &&& 0xf) <<< tdEpShift |||
      maxlen reqsize <<< tdMaxlenShift ||| (ep.toggle &&& 1) <<< tdToggleShift)).testBit tdToggleShift =
        ep.toggle.testBit 0 := by
  have hpid : (pidOf ep.direction).testBit 19 = false := by cases ep.direction <;> rfl
  have haddress : (address : ℕ).testBit 11 = false :=
    Nat.testBit_lt_two_pow (address.isLt.trans (by norm_num))
  have hendpoint : (ep.endpoint &&& 15).testBit 4 = false := by
    rw [Nat.testBit_and, show Nat.testBit 15 4 = false from rfl, Bool.and_false]
  simp only [tdToggleShift, tdDevaddrShift, tdEpShift, tdMaxlenShift, Nat.testBit_or,
    Nat.testBit_shiftLeft]
  simp [hpid, haddress, hendpoint]

lemma Built.update {tds : ℕ → Td} (h : Built t i tds) {td : Td} (hptr : td.ptr = some (i + 1))
    (hactive : td.Active) (htoggle : td.toggle = (t ^^ i.bodd)) :
    Built t (i + 1) (Function.update tds i td) := by
  have hcases {p : ℕ → Td → Prop} (hold : ∀ k < i, p k (tds k)) (hnew : p i td) :
      ∀ k < i + 1, p k (Function.update tds i td k) := by
    intro k hk
    rcases Nat.lt_succ_iff_lt_or_eq.mp hk with hlt | rfl
    · rw [Function.update_of_ne hlt.ne]
      exact hold k hlt
    · rw [Function.update_self]
      exact hnew
  exact ⟨hcases (p := fun k td => td.ptr = some (k + 1)) h.ptr hptr,
    hcases (p := fun _ td => td.Active) h.active hactive,
    hcases (p := fun k td => td.toggle = (t ^^ k.bodd)) h.toggle htoggle⟩

lemma createLoop_built {address : Fin 128} {speed reqsize left data : ℕ} {ep : Endpoint} {tds : ℕ → Td}
    (h : Built t i tds) (hep : ep.toggle.testBit 0 = (t ^^ i.bodd)) :
    Built t (left + i) (createLoop address speed reqsize left i data ep tds).1 := by
  induction left generalizing i data ep tds with
  | zero =>
    rw [Nat.zero_add]
    exact h
  | succ left ih =>
    have htoggle : (ep.toggle ^^^ 1).testBit 0 = (t ^^ (i + 1).bodd) := by
      rw [Nat.testBit_xor, Nat.testBit_one_zero, Bool.xor_true, hep, Nat.bodd_succ]
      cases t <;> simp
    rw [createLoop, Nat.succ_add_eq_add_succ]
    refine ih (h.update rfl ?_ ?_) htoggle
    · rw [active_iff]
      simp only
      rw [Nat.testBit_or, tdStatusActive, Nat.one_shiftLeft, Nat.testBit_two_pow_self, Bool.or_true]
    · exact (toggle_token ep address reqsize).trans hep

/-- Nothing has been read or executed yet in a queue that is created. -/
lemma At.of_create {ep ep' : Endpoint} {address : Fin 128} {speed reqsize reqcount reqtiming : ℕ}
    {frames frames' : ℕ → ℕ} {qhPrei qh data : ℕ} {chunk : ℕ → P} (hn : 2 ≤ reqcount)
    (h : createIntrQueue ep address speed reqsize reqcount reqtiming frames qhPrei qh data chunk =
      some (frames', ep', q)) :
    At reqcount 0 0 q ∧ ∀ k < reqcount, (q.tds k).toggle = (ep.toggle.testBit 0 ^^ k.bodd) := by
  obtain ⟨frames'', -, heq⟩ := Option.map_eq_some_iff.mp h
  obtain ⟨-, hrest⟩ := Prod.mk.inj heq
  obtain ⟨-, rfl⟩ := Prod.mk.inj hrest
  have hbuilt : Built (ep.toggle.testBit 0) reqcount
      (createLoop address speed reqsize reqcount 0 data ep fun _ => .zero).1 :=
    createLoop_built (i := 0) ⟨nofun, nofun, nofun⟩ (by simp)
  have hlast : last reqcount 0 % reqcount = reqcount - 1 := by
    rw [last_zero]
    exact Nat.mod_eq_of_lt (by omega)
  have hmod {k : ℕ} (hk : k < reqcount) : k % reqcount = k := Nat.mod_eq_of_lt hk
  refine ⟨⟨⟨rfl, (Nat.zero_mod _).symm, hlast.symm, fun m _ hm => ?_, ?_⟩, le_rfl, Nat.zero_le _,
    fun m _ hm => ?_, ?_⟩, fun k hk => ?_⟩
  · rw [last_zero] at hm
    rw [hmod (by omega : m < reqcount), modifyTd_of_ne (by omega), hmod (by omega : m + 1 < reqcount)]
    exact hbuilt.ptr m (by omega)
  · rw [hlast, modifyTd_self]
  · rw [last_zero] at hm
    rw [hmod (by omega : m < reqcount)]
    refine iff_of_true ?_ (Nat.zero_le m)
    rcases eq_or_ne m (reqcount - 1) with rfl | hne
    · rw [modifyTd_self]
      exact hbuilt.active _ (by omega)
    · rw [modifyTd_of_ne hne]
      exact hbuilt.active m (by omega)
  · exact .inr (.inl ⟨Nat.zero_le _, by rw [Nat.zero_mod]; rfl⟩)
  · rcases eq_or_ne k (reqcount - 1) with rfl | hne
    · rw [modifyTd_self]
      exact hbuilt.toggle _ (by omega)
    · rw [modifyTd_of_ne hne]
      exact hbuilt.toggle k hk

/-- The toggles around the ring alternate if it is even, or if it is gone through once at most. -/
lemma alternates_ring (h : Even n ∨ x ≤ n) :
    Alternates t ((List.range x).map fun m => t ^^ (m % n).bodd) := by
  have hbodd : ∀ m ∈ List.range x, (t ^^ (m % n).bodd) = (t ^^ m.bodd) := by
    intro m hm
    rw [List.mem_range] at hm
    rcases h with heven | hle
    · have hmod : m % n % 2 = m % 2 := Nat.mod_mod_of_dvd m heven.two_dvd
      rw [Nat.mod_two_of_bodd, Nat.mod_two_of_bodd] at hmod
      have hbodd : (m % n).bodd = m.bodd := by
        cases h₁ : (m % n).bodd <;> cases h₂ : m.bodd <;> simp [h₁, h₂] at hmod ⊢
      rw [hbodd]
    · rw [Nat.mod_eq_of_lt (by omega)]
  rw [List.map_congr_left hbodd]
  exact Alternates.map_range t x

end IntrQ

open IntrQ

/-- The links of a queue always lead through its ring. Unless a poll requeues a descriptor that has been
executed and not been read, the packets that have come in are returned in their order, all of them if
polling goes on. Unless a ring of odd size is gone through more than once, the toggles of the
descriptors that are executed alternate. -/
theorem intrQueue_of_meets {ep ep' : Endpoint} {address : Fin 128}
    {speed reqsize reqcount reqtiming : ℕ} {frames frames' : ℕ → ℕ} {qhPrei qh data : ℕ}
    {chunk : ℕ → P} {q q' : IntrQ P} {es : List (Event P)}
    (hq : createIntrQueue ep address speed reqsize reqcount reqtiming frames qhPrei qh data chunk =
      some (frames', ep', q)) (hn : 2 ≤ reqcount) (hes : exec step q es = some q')
    (hover : Meets step (fun q e => e = .poll → ¬q.Overruns) q es)
    (hodd : Even reqcount ∨ (outputs step executedBy q es).length ≤ reqcount) :
    (∀ p, p <+: es → ∀ q'' ∈ exec step q p, InRingOrder reqcount q'') ∧
      outputs step returnedBy q es <+: outputs step succeededBy q es ∧
      (∀ p k, es = p ++ List.replicate k .poll → reqcount ≤ k →
        outputs step returnedBy q es = outputs step succeededBy q es) ∧
      Alternates (ep.toggle.testBit 0) (outputs step executedBy q es) := by
  obtain ⟨hat, htoggles⟩ := At.of_create hn hq
  obtain ⟨r, x, hat', hmoved⟩ := hat.run hn hover hes
  have hpackets := hmoved.packets
  rw [waiting_self, List.nil_append] at hpackets
  refine ⟨fun p _ q'' hq'' => ?_, ⟨_, hpackets.symm⟩, fun p k hsplit hk => ?_, ?_⟩
  · have hstep (q₁ : IntrQ P) (e : Event P) (q₂ : IntrQ P) (h : ∃ r, Ring reqcount r q₁)
        (he : q₁.step e = some q₂) : ∃ r, Ring reqcount r q₂ := by
      obtain ⟨r, hr⟩ := h
      exact hr.step hn he
    obtain ⟨r, hr⟩ := invariant hstep ⟨0, hat.ring⟩ hq''
    exact hr.inRingOrder hn
  · subst hsplit
    obtain ⟨q₁, hq₁, hpolls⟩ := Option.bind_eq_some_iff.mp (exec_append p _ ▸ hes)
    obtain ⟨hover₁, hover₂⟩ := (meets_append_iff hq₁).mp hover
    obtain ⟨r₁, x₁, hat₁, hmoved₁⟩ := hat.run hn hover₁ hq₁
    have hle := hat₁.progress.le_last
    have hlt := last_lt (r := r₁) hn
    have hall := (hat₁.polls hn (by omega : x₁ ≤ r₁ + k) hover₂ hpolls).packets
    have hbefore := hmoved₁.packets
    rw [waiting_self, List.nil_append] at hbefore
    rw [waiting_self, List.append_nil] at hall
    rw [outputs_append hq₁, outputs_append hq₁, hbefore, List.append_assoc, hall]
  · have hexecuted := hmoved.executed
    rw [Nat.sub_zero, ← List.range_eq_range'] at hexecuted
    have hlen : (outputs step executedBy q es).length = x := by
      rw [hexecuted, List.length_map, List.length_range]
    rw [hlen] at hodd
    rw [hexecuted, List.map_congr_left fun m _ => htoggles _ (Nat.mod_lt m (by omega))]
    exact alternates_ring hodd

/-- A queue of `reqcount` descriptors for an endpoint whose next toggle is zero. -/
def sampleQueue (reqcount : ℕ) : Option ((ℕ → ℕ) × Endpoint × IntrQ ℕ) :=
  createIntrQueue ⟨0x81, .in_, 0, 8, 3, 10⟩ 1 0 8 reqcount 1024 (fun _ => 0x1902) 0x1900 0x2000 0x3000
    fun _ => 0

theorem intrQueue_of_meets_sample : ∃ r q', sampleQueue 2 = some r ∧
    exec step r.2.2 [.complete 0 5 false, .poll] = some q' ∧
    Alternates false (outputs step executedBy r.2.2 [.complete 0 5 false, .poll]) := by
  obtain ⟨r, hr⟩ : ∃ r, sampleQueue 2 = some r := ⟨_, rfl⟩
  have hrun : (sampleQueue 2).bind (fun r =>
      (exec step r.2.2 [Event.complete 0 5 false, .poll]).map fun _ =>
        decide (Meets step (fun q e => e = .poll → ¬q.Overruns) r.2.2
          [Event.complete 0 5 false, .poll])) = some true := by decide +kernel
  rw [hr, Option.bind_some] at hrun
  obtain ⟨q', hq', hmeets⟩ := Option.map_eq_some_iff.mp hrun
  exact ⟨r, q', hr, hq', (intrQueue_of_meets hr le_rfl hq' (of_decide_eq_true hmeets)
    (.inl even_two)).2.2.2⟩

/-- If both descriptors of a queue have been executed before the first poll, the second packet is not
returned however often the queue is polled, and its descriptor is executed again. -/
theorem packet_lost : ∃ r, sampleQueue 2 = some r ∧
    outputs step succeededBy r.2.2 ([.complete 0 5 false, .complete 0 6 false] ++
      List.replicate 2 .poll) = [5, 6] ∧
    outputs step returnedBy r.2.2 ([.complete 0 5 false, .complete 0 6 false] ++
      List.replicate 2 .poll) = [5] ∧
    ¬Alternates false (outputs step executedBy r.2.2
      ([.complete 0 5 false, .complete 0 6 false] ++ List.replicate 2 .poll ++
        [.complete 0 7 false])) := by
  obtain ⟨r, hr⟩ : ∃ r, sampleQueue 2 = some r := ⟨_, rfl⟩
  have hpackets : (sampleQueue 2).map (fun r =>
      (outputs step succeededBy r.2.2 ([.complete 0 5 false, .complete 0 6 false] ++
          List.replicate 2 .poll),
        outputs step returnedBy r.2.2 ([.complete 0 5 false, .complete 0 6 false] ++
          List.replicate 2 .poll))) = some ([5, 6], [5]) := by decide +kernel
  have htoggles : (sampleQueue 2).map (fun r => outputs step executedBy r.2.2
      ([.complete 0 5 false, .complete 0 6 false] ++ List.replicate 2 .poll ++
        [.complete 0 7 false])) = some [false, true, true] := by decide +kernel
  rw [hr, Option.map_some, Option.some_inj] at hpackets htoggles
  obtain ⟨hsucceeded, hreturned⟩ := Prod.mk.inj hpackets
  refine ⟨r, hr, hsucceeded, hreturned, ?_⟩
  rw [htoggles]
  decide

/-- In a ring of three descriptors the first one is executed again with the toggle of the last one. -/
example : (sampleQueue 3).map (fun r => outputs step executedBy r.2.2 [.complete 0 5 false, .poll,
    .complete 0 6 false, .poll, .complete 0 7 false, .complete 0 8 false]) =
      some [false, true, false, false] := by decide +kernel

end ApuBios.Uhci
