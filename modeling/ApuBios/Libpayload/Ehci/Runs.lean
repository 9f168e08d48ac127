import ApuBios.Libpayload.Ehci.IntrQueue

/-!
# Runs of interrupt queues of the EHCI driver

Over the whole life of a queue its descriptors rotate through it and the place of the spare one. The
spare one takes a data toggle when the queue is created, and another one when it is filled in again to
be linked for the first time. With it the data toggles get out of step.
-/

namespace ApuBios.Ehci

open Usb LinkedList Transition

variable {n : ℕ} {b : Blocks n} {q : IntrQueue} {a cur next data k i left : ℕ} {l : List ℕ} {t : Bool}

namespace IntrQueue

/-! ### Filling and linking descriptors -/

@[simp] lemma link_mem_of_ne (h : a ≠ cur) : (q.link cur next).mem a = q.mem a :=
  Function.update_of_ne h ..

@[simp] lemma link_mem_self : (q.link cur next).mem cur =
    { q.mem cur with td := { (q.mem cur).td with nextQtd := virtToPhys next }, next := next } :=
  Function.update_self ..

@[simp] lemma fill_mem_of_ne (h : a ≠ cur) : (q.fill cur data).mem a = q.mem a :=
  Function.update_of_ne h ..

@[simp] lemma fill_next : ((q.fill cur data).mem cur).next = 0 := by simp [fill]

@[simp] lemma fill_data : ((q.fill cur data).mem cur).data = data := by simp [fill]

@[simp] lemma fill_nextQtd : ((q.fill cur data).mem cur).td.nextQtd = qtdTerminate := by
  simp [fill, fillTd_nextQtd]

lemma chunkLen_lt (data n : ℕ) : chunkLen data n < 2 ^ 15 := by
  have := chunkLen_bound data n
  omega

/-- A descriptor gets the toggle of the endpoint. -/
@[simp] lemma fill_toggle :
    ((q.fill cur data).mem cur).td.toggle = q.endp.toggle.testBit 0 := by
  have hpid (d : Direction) : (pidOf d <<< qtdPidShift).testBit 31 = false := by cases d <;> rfl
  have hcerr : ((if q.speed < 2 then 1 else 0) <<< qtdCerrShift).testBit 31 = false := by
    split <;> rfl
  have hactive : qtdActive.testBit 31 = false := rfl
  simp only [fill, Function.update_self, Qtd.toggle]
  rw [fillTd_token]
  refine (toggle_or (chunkLen_lt ..)).trans ?_
  simp only [Qtd.toggle, qtdToggleShift, Nat.testBit_or, Nat.testBit_shiftLeft] at hpid hcerr hactive ⊢
  rw [hpid, hcerr, hactive]
  simp

/-- And the endpoint gets the other one. -/
@[simp] lemma fill_endp_toggle (q : IntrQueue) (cur data : ℕ) :
    (q.fill cur data).endp.toggle.testBit 0 = !q.endp.toggle.testBit 0 := by
  change (q.endp.toggle ^^^ 1).testBit 0 = _
  rw [Nat.testBit_xor, Nat.testBit_one_zero, Bool.xor_true]

/-! ### What a queue consists of -/

/-- Two descriptors have data buffers of their own. -/
def Apart (q : IntrQueue) (a a' : ℕ) : Prop :=
  (q.mem a).data + q.reqsize ≤ (q.mem a').data ∨ (q.mem a').data + q.reqsize ≤ (q.mem a).data

/-- The queue consists of `n` descriptors from its head to its tail, which are linked in the same way for
the driver and for the controller, and of a spare one. All of them have data buffers of their own. -/
def Consists (n : ℕ) (q : IntrQueue) : Prop :=
  ∃ l : List ℕ, l.length = n ∧ IsChain (fun a => (q.mem a).next) q.head l ∧
    (∀ a ∈ l, (q.mem a).td.nextQtd =
      if (q.mem a).next = 0 then qtdTerminate else virtToPhys (q.mem a).next) ∧
    l.getLast? = some q.tail ∧ q.spare ∉ l ∧ (l ++ [q.spare]).Pairwise q.Apart

/-- The descriptors of a queue are those that were allocated for it, in some order. -/
structure Holds {n : ℕ} (b : Blocks n) (q : IntrQueue) (l : List ℕ) : Prop where
  chain : IsChain (fun a => (q.mem a).next) q.head l
  linked : ∀ a ∈ l, (q.mem a).td.nextQtd =
    if (q.mem a).next = 0 then qtdTerminate else virtToPhys (q.mem a).next
  tail : l.getLast? = some q.tail
  perm : (l ++ [q.spare]).Perm ((List.range (n + 1)).map b.td)
  data : ∀ k ≤ n, (q.mem (b.td k)).data = b.data + k * q.reqsize

lemma Holds.length (h : Holds b q l) : l.length = n := by
  have := h.perm.length_eq
  simp at this
  exact this

lemma Holds.nodup (h : Holds b q l) : (l ++ [q.spare]).Nodup := by
  refine h.perm.nodup_iff.mpr (List.Nodup.map_on ?_ List.nodup_range)
  intro j hj k hk
  exact b.td_inj (Nat.le_of_lt_succ (List.mem_range.mp hj)) (Nat.le_of_lt_succ (List.mem_range.mp hk))

lemma Holds.spare_notMem (h : Holds b q l) : q.spare ∉ l := fun hmem =>
  List.disjoint_of_nodup_append h.nodup hmem (List.mem_singleton_self _)

/-- The descriptors of a queue are allocated ones. -/
lemma Holds.exists_eq (h : Holds b q l) (ha : a ∈ l ++ [q.spare]) : ∃ k ≤ n, a = b.td k := by
  obtain ⟨k, hk, rfl⟩ := List.mem_map.mp (h.perm.mem_iff.mp ha)
  exact ⟨k, Nat.le_of_lt_succ (List.mem_range.mp hk), rfl⟩

lemma Holds.spare_pos (h : Holds b q l) : q.spare ≠ 0 := by
  obtain ⟨k, hk, heq⟩ := h.exists_eq (List.mem_append_right l (List.mem_singleton_self q.spare))
  exact heq ▸ (b.td_pos k hk).ne'

lemma Holds.consists (h : Holds b q l) : q.Consists n := by
  refine ⟨l, h.length, h.chain, h.linked, h.tail, h.spare_notMem, ?_⟩
  have hsymm {a a' : ℕ} (hapart : q.Apart a a') : q.Apart a' a := Or.symm hapart
  rw [h.perm.pairwise_iff hsymm, List.pairwise_map]
  refine List.pairwise_lt_range.imp_of_mem ?_
  intro j k hj hk hjk
  rw [List.mem_range] at hj hk
  left
  rw [h.data j (by omega), h.data k (by omega)]
  calc b.data + j * q.reqsize + q.reqsize = b.data + (j + 1) * q.reqsize := by ring
    _ ≤ b.data + k * q.reqsize := Nat.add_le_add_left (Nat.mul_le_mul_right _ hjk) _

/-! ### One event -/

/-- What an active queue becomes when it is polled differs in the queue head only. -/
lemma poll_of_active (h : q.Active q.head) : ∃ qh, q.poll.2 = { q with qh := qh } := by
  rw [poll, if_neg (not_not.mpr h)]
  split
  · exact ⟨_, rfl⟩
  · exact ⟨q.qh, rfl⟩

/-- The queue in which the spare descriptor has been linked behind the tail. -/
def appended (q : IntrQueue) : IntrQueue := (q.fill q.spare (q.mem q.spare).data).link q.tail q.spare

lemma poll_of_inactive (h : ¬q.Active q.head) : q.poll.2 =
    { q.appended with
      tail := (q.appended.mem q.tail).next
      spare := q.head
      head := (q.appended.mem q.head).next } := by
  rw [poll, if_pos h]
  rfl

lemma appended_mem_of_ne (hspare : a ≠ q.spare) (htail : a ≠ q.tail) :
    q.appended.mem a = q.mem a := by
  rw [appended, link_mem_of_ne htail, fill_mem_of_ne hspare]

lemma appended_tail (h : q.tail ≠ q.spare) : q.appended.mem q.tail =
    { q.mem q.tail with
      td := { (q.mem q.tail).td with nextQtd := virtToPhys q.spare }
      next := q.spare } := by
  rw [appended, link_mem_self, fill_mem_of_ne h]

lemma appended_spare (h : q.tail ≠ q.spare) :
    q.appended.mem q.spare = (q.fill q.spare (q.mem q.spare).data).mem q.spare := by
  rw [appended, link_mem_of_ne h.symm]

/-- No data buffer is changed. -/
lemma appended_data (h : q.tail ≠ q.spare) : (q.appended.mem a).data = (q.mem a).data := by
  rcases eq_or_ne a q.spare with rfl | hspare
  · rw [appended_spare h, fill_data]
  · rcases eq_or_ne a q.tail with rfl | htail
    · rw [appended_tail h]
    · rw [appended_mem_of_ne hspare htail]

lemma Holds.tail_mem (h : Holds b q l) : q.tail ∈ l := List.mem_of_getLast? h.tail

lemma Holds.tail_ne_spare (h : Holds b q l) : q.tail ≠ q.spare := fun heq =>
  h.spare_notMem (heq ▸ h.tail_mem)

/-- When the head has been executed, the spare descriptor takes the place behind the tail, and the head
becomes the spare one. -/
lemma Holds.poll_of_inactive (h : Holds b q (a :: l)) (hhead : ¬q.Active q.head) :
    Holds b q.poll.2 (l ++ [q.spare]) := by
  have hne := h.tail_ne_spare
  have heq : q.head = a := (IsChain.cons_iff.mp h.chain).1
  obtain ⟨init, hinit⟩ := List.getLast?_eq_some_iff.mp h.tail
  have hinit_ne : ∀ x ∈ init, x ≠ q.tail := by
    intro x hx
    have hnodup := (List.nodup_append.mp h.nodup).1
    rw [hinit] at hnodup
    exact (List.nodup_append.mp hnodup).2.2 x hx _ (List.mem_singleton_self _)
  have hmem_ne : ∀ x ∈ a :: l, x ≠ q.spare := fun x hx heq => h.spare_notMem (heq ▸ hx)
  have hchain : IsChain (fun x => (q.appended.mem x).next) q.head (a :: l ++ [q.spare]) := by
    have hold := h.chain
    rw [hinit] at hold ⊢
    refine hold.concat ?_ ?_ h.spare_pos ?_
    · rw [appended_tail hne]
    · rw [appended_spare hne, fill_next]
    · intro x hx
      have hxl : x ∈ a :: l := hinit ▸ List.mem_append_left _ hx
      rw [appended_mem_of_ne (hmem_ne x hxl) (hinit_ne x hx)]
  rw [IntrQueue.poll_of_inactive hhead]
  refine ⟨?_, ?_, ?_, ?_, ?_⟩
  · rw [heq]
    exact (IsChain.cons_iff.mp hchain).2.2
  · intro x hx
    simp only
    rcases List.mem_append.mp hx with hx | hx
    · have hxl : x ∈ a :: l := List.mem_cons_of_mem a hx
      rcases eq_or_ne x q.tail with rfl | htail
      · rw [appended_tail hne]
        simp [h.spare_pos]
      · rw [appended_mem_of_ne (hmem_ne x hxl) htail]
        exact h.linked x hxl
    · rw [List.mem_singleton.mp hx, appended_spare hne]
      simp
  · simp [appended_tail hne]
  · rw [heq]
    refine List.Perm.trans ?_ h.perm
    simpa using List.perm_append_singleton a (l ++ [q.spare])
  · intro k hk
    simp only
    rw [appended_data hne]
    exact h.data k hk

/-- The controller changes the tokens only. -/
lemma complete_mem (q : IntrQueue) (a token currentTdPtr : ℕ) (overlay : Qtd) (x : ℕ) :
    ((q.complete a token currentTdPtr overlay).mem x).next = (q.mem x).next ∧
      ((q.complete a token currentTdPtr overlay).mem x).data = (q.mem x).data ∧
      ((q.complete a token currentTdPtr overlay).mem x).td.nextQtd = (q.mem x).td.nextQtd := by
  rcases eq_or_ne x a with rfl | hne
  · simp [complete]
  · simp [complete, Function.update_of_ne hne]

lemma Holds.complete (h : Holds b q l) (token currentTdPtr : ℕ) (overlay : Qtd) :
    Holds b (q.complete a token currentTdPtr overlay) l := by
  have hmem := complete_mem q a token currentTdPtr overlay
  refine ⟨h.chain.congr fun x _ => (hmem x).1, ?_, h.tail, h.perm, ?_⟩
  · intro x hx
    rw [(hmem x).1, (hmem x).2.2]
    exact h.linked x hx
  · intro k hk
    rw [(hmem _).2.1]
    exact h.data k hk

/-- After any event the queue consists of the allocated descriptors still. -/
lemma Holds.after (h : Holds b q l) (hn : 0 < n) (e : Event) : ∃ l, Holds b (q.after e) l := by
  cases e with
  | complete a token currentTdPtr overlay => exact ⟨l, h.complete token currentTdPtr overlay⟩
  | poll =>
    by_cases hhead : q.Active q.head
    · obtain ⟨qh, hqh⟩ := poll_of_active hhead
      rw [IntrQueue.after, hqh]
      exact ⟨l, h.chain, h.linked, h.tail, h.perm, h.data⟩
    · cases l with
      | nil => exact absurd h.length hn.ne
      | cons a l => exact ⟨_, h.poll_of_inactive hhead⟩

/-! ### The data toggles over the life of a queue -/

/-- The toggle of the descriptor that an event links for execution, if it does. -/
def linkedBy (q : IntrQueue) : Event → List Bool
  | .poll => if q.Active q.head then [] else [(q.poll.2.mem q.poll.2.tail).td.toggle]
  | .complete .. => []

/-- The toggles of the descriptors that the events link for execution, in their order. -/
def linkedToggles : IntrQueue → List Event → List Bool
  | _, [] => []
  | q, e :: es => q.linkedBy e ++ linkedToggles (q.after e) es

/-- The `n` descriptors that the links of the driver lead to. -/
def follow (mem : ℕ → IntrQtd) : (n : ℕ) → (a : ℕ) → List ℕ
  | 0, _ => []
  | n + 1, a => a :: follow mem n (mem a).next

/-- The toggles in the order of the descriptors' execution, over the whole life of a queue. -/
def toggles (q : IntrQueue) (n : ℕ) (es : List Event) : List Bool :=
  (follow q.mem n q.head).map (fun a => (q.mem a).td.toggle) ++ q.linkedToggles es

lemma follow_eq {mem : ℕ → IntrQtd} {c : ℕ} (h : Linked id (fun a => (mem a).next) a l c) :
    follow mem l.length a = l := by
  induction l generalizing a with
  | nil => rfl
  | cons x l ih =>
    obtain ⟨rfl, hl⟩ := h
    rw [List.length_cons, follow]
    exact congrArg _ (ih hl)

/-- A poll that finds the head executed links a descriptor with the toggle of the endpoint. -/
lemma Holds.linkedBy_poll (h : Holds b q l) (hhead : ¬q.Active q.head) :
    q.linkedBy .poll = [q.endp.toggle.testBit 0] ∧
      q.poll.2.endp.toggle.testBit 0 = !q.endp.toggle.testBit 0 := by
  have hne := h.tail_ne_spare
  rw [linkedBy, if_neg hhead, IntrQueue.poll_of_inactive hhead]
  constructor
  · simp only
    rw [appended_tail hne, appended_spare hne, fill_toggle]
  · exact fill_endp_toggle q q.spare (q.mem q.spare).data

/-- Any event links nothing and leaves the toggle of the endpoint, or links a descriptor with it. -/
lemma Holds.linkedBy_cases (h : Holds b q l) (e : Event) :
    (q.linkedBy e = [] ∧ (q.after e).endp.toggle = q.endp.toggle ∧ (e = .poll → q.Active q.head)) ∨
      q.linkedBy e = [q.endp.toggle.testBit 0] ∧
        (q.after e).endp.toggle.testBit 0 = (!q.endp.toggle.testBit 0) ∧
        e = .poll ∧ ¬q.Active q.head := by
  cases e with
  | complete a token currentTdPtr overlay => exact .inl ⟨rfl, rfl, nofun⟩
  | poll =>
    by_cases hhead : q.Active q.head
    · obtain ⟨qh, hqh⟩ := poll_of_active hhead
      refine .inl ⟨if_pos hhead, ?_, fun _ => hhead⟩
      rw [IntrQueue.after, hqh]
    · obtain ⟨hlinked, htoggle⟩ := h.linkedBy_poll hhead
      exact .inr ⟨hlinked, htoggle, rfl, hhead⟩

/-- The descriptors that are linked over a run have alternating toggles, beginning with that of the
endpoint. -/
lemma Holds.linkedToggles_alternate (h : Holds b q l) (hn : 0 < n) (es : List Event) :
    Alternates (q.endp.toggle.testBit 0) (q.linkedToggles es) := by
  induction es generalizing q l with
  | nil => trivial
  | cons e es ih =>
    obtain ⟨l', hl'⟩ := h.after hn e
    have hrest := ih hl'
    rw [linkedToggles]
    rcases h.linkedBy_cases e with ⟨hlinked, htoggle, -⟩ | ⟨hlinked, htoggle, -⟩
    · rw [hlinked, List.nil_append, ← htoggle]
      exact hrest
    · rw [hlinked]
      rw [htoggle] at hrest
      exact ⟨rfl, hrest⟩

/-- Nothing is linked in a run exactly if every poll finds the head active. -/
lemma Holds.linkedToggles_eq_nil (h : Holds b q l) (hn : 0 < n) (es : List Event) :
    q.linkedToggles es = [] ↔ Meets step (fun q e => e = .poll → q.Active q.head) q es := by
  induction es generalizing q l with
  | nil => exact iff_of_true rfl trivial
  | cons e es ih =>
    obtain ⟨l', hl'⟩ := h.after hn e
    rw [linkedToggles, Meets, step, List.append_eq_nil_iff]
    refine and_congr ?_ (ih hl')
    rcases h.linkedBy_cases e with ⟨hlinked, -, hactive⟩ | ⟨hlinked, -, rfl, hhead⟩
    · exact iff_of_true hlinked hactive
    · rw [hlinked]
      exact iff_of_false (by simp) fun hactive => hhead (hactive rfl)

/-! ### The queue that is created -/

/-- A descriptor is filled in for the buffer at `d` and linked to `c`, if that is not null. -/
structure IsSet (q : IntrQueue) (a d c : ℕ) (t : Bool) : Prop where
  data : (q.mem a).data = d
  next : (q.mem a).next = c
  nextQtd : (q.mem a).td.nextQtd = if c = 0 then qtdTerminate else virtToPhys c
  toggle : (q.mem a).td.toggle = t

lemma IsSet.congr {q' : IntrQueue} (h : IsSet q a data next t) (hmem : q'.mem a = q.mem a) :
    IsSet q' a data next t :=
  ⟨hmem ▸ h.data, hmem ▸ h.next, hmem ▸ h.nextQtd, hmem ▸ h.toggle⟩

lemma isSet_fill (q : IntrQueue) (a data : ℕ) :
    IsSet (q.fill a data) a data 0 (q.endp.toggle.testBit 0) :=
  ⟨fill_data, fill_next, fill_nextQtd, fill_toggle⟩

lemma IsSet.link {c : ℕ} (h : IsSet q a data next t) (hc : c ≠ 0) :
    IsSet (q.link a c) a data c t := by
  refine ⟨?_, ?_, ?_, ?_⟩
  · rw [link_mem_self]
    exact h.data
  · rw [link_mem_self]
  · rw [link_mem_self, if_neg hc]
  · rw [link_mem_self]
    exact h.toggle

/-- The first `i` descriptors are set, each with the next toggle, and the endpoint has the one that
follows. -/
structure Built {n : ℕ} (b : Blocks n) (t : Bool) (i : ℕ) (q : IntrQueue) : Prop where
  isSet : ∀ k < i, IsSet q (b.td k) (b.data + k * q.reqsize)
    (if k + 1 < n then b.td (k + 1) else 0) (t ^^ k.bodd)
  toggle : q.endp.toggle.testBit 0 = (t ^^ i.bodd)

lemma td_ne (hk : k < i) (hi : i ≤ n) : b.td k ≠ b.td i := fun heq =>
  hk.ne (b.td_inj (hk.le.trans hi) hi heq)

/-- One round of the loop. -/
lemma Built.fill_link (h : Built b t i q) (hi : i < n) :
    Built b t (i + 1) (if i + 1 < n then
      (q.fill (b.td i) (b.data + i * q.reqsize)).link (b.td i) (b.td (i + 1))
      else q.fill (b.td i) (b.data + i * q.reqsize)) := by
  have hfill := isSet_fill q (b.td i) (b.data + i * q.reqsize)
  have htoggle : (q.fill (b.td i) (b.data + i * q.reqsize)).endp.toggle.testBit 0 =
      (t ^^ (i + 1).bodd) := by
    rw [fill_endp_toggle, h.toggle, Nat.bodd_succ]
    cases t <;> simp
  split
  · rename_i hnext
    refine ⟨fun k hk => ?_, htoggle⟩
    rcases (Nat.lt_succ_iff_lt_or_eq.mp hk) with hk | rfl
    · have hne := td_ne (b := b) hk hi.le
      exact (h.isSet k hk).congr (by rw [link_mem_of_ne hne, fill_mem_of_ne hne])
    · rw [if_pos hnext, ← h.toggle]
      exact hfill.link (b.td_pos _ hnext.le).ne'
  · rename_i hnext
    refine ⟨fun k hk => ?_, htoggle⟩
    rcases (Nat.lt_succ_iff_lt_or_eq.mp hk) with hk | rfl
    · exact (h.isSet k hk).congr (fill_mem_of_ne (td_ne hk hi.le))
    · rw [if_neg hnext, ← h.toggle]
      exact hfill

/-- What the loop leaves to the rest of the function. -/
structure LoopDone {n : ℕ} (b : Blocks n) (t : Bool) (q : IntrQueue) (r : IntrQueue × ℕ × ℕ) :
    Prop where
  built : Built b t n r.1
  head : r.1.head = q.head
  reqsize : r.1.reqsize = q.reqsize
  cur : r.2.1 = b.td (n - 1)
  data : r.2.2 = b.data + n * q.reqsize

lemma createLoop_done (hleft : left + i = n) (h : Built b t i q) (hcur : cur = b.td (min i (n - 1)))
    (hdata : data = b.data + i * q.reqsize) :
    LoopDone b t q (createLoop b.td n left q i cur data) := by
  induction left generalizing q i cur data with
  | zero =>
    obtain rfl : i = n := by omega
    rw [Nat.min_eq_right (by omega)] at hcur
    exact ⟨h, rfl, rfl, hcur, hdata⟩
  | succ left ih =>
    have hi : i < n := by omega
    have hstep := h.fill_link hi
    have hcur' : cur = b.td i := by rw [hcur, Nat.min_eq_left (by omega)]
    have hdata' : data + q.reqsize = b.data + (i + 1) * q.reqsize := by
      rw [hdata]
      ring
    rw [createLoop]
    subst hcur' hdata
    split
    · rename_i hnext
      rw [if_pos hnext] at hstep
      have hmin : b.td (i + 1) = b.td (min (i + 1) (n - 1)) := by rw [Nat.min_eq_left (by omega)]
      obtain ⟨hbuilt, hhead, hreqsize, hlast, hrest⟩ := ih (by omega) hstep hmin hdata'
      exact ⟨hbuilt, hhead, hreqsize, hlast, hrest⟩
    · rename_i hnext
      rw [if_neg hnext] at hstep
      have hmin : b.td i = b.td (min (i + 1) (n - 1)) := by
        rw [Nat.min_eq_right (by omega)]
        congr 1
        omega
      obtain ⟨hbuilt, hhead, hreqsize, hlast, hrest⟩ := ih (by omega) hstep hmin hdata'
      exact ⟨hbuilt, hhead, hreqsize, hlast, hrest⟩

/-- The links of the descriptors from the `i`th one on lead through the others to null. -/
lemma Built.linked (h : Built b t n q) (hsum : i + k = n) (hk : 0 < k) :
    Linked id (fun a => (q.mem a).next) (b.td i) ((List.range' i k).map b.td) 0 := by
  induction k generalizing i with
  | zero => exact absurd hk (lt_irrefl 0)
  | succ k ih =>
    have hnext := (h.isSet i (by omega)).next
    refine ⟨rfl, ?_⟩
    simp only [id_eq, hnext]
    rcases Nat.eq_zero_or_pos k with rfl | hpos
    · exact if_neg (by omega)
    · rw [if_pos (by omega)]
      exact ih (by omega) hpos

/-- The queue that is created consists of the allocated descriptors. Their toggles alternate, but the
spare one has taken a toggle, too. -/
lemma createTds_holds (b : Blocks n) (hn : 0 < n) (q : IntrQueue) :
    Holds b (createTds b q) ((List.range n).map b.td) ∧
      (∀ k < n, ((createTds b q).mem (b.td k)).td.toggle = (q.endp.toggle.testBit 0 ^^ k.bodd)) ∧
      (createTds b q).endp.toggle.testBit 0 = (q.endp.toggle.testBit 0 ^^ (n + 1).bodd) := by
  set q₀ := { q with head := b.td 0 } with hq₀
  have hbuilt₀ : Built b (q.endp.toggle.testBit 0) 0 q₀ :=
    ⟨fun k hk => absurd hk (Nat.not_lt_zero k), by simp [hq₀]⟩
  obtain ⟨hbuilt, hhead, hreqsize, hlast, hdata⟩ :=
    createLoop_done (by omega : n + 0 = n) hbuilt₀ (by simp : b.td 0 = b.td (min 0 (n - 1)))
      (by simp : b.data = b.data + 0 * q₀.reqsize)
  set r := createLoop b.td n n q₀ 0 (b.td 0) b.data with hr
  set q₁ := { r.1 with tail := r.2.1, spare := b.td n } with hq₁
  have hcreate : createTds b q = q₁.fill (b.td n) r.2.2 := rfl
  have hspare := isSet_fill q₁ (b.td n) r.2.2
  have hset (k : ℕ) (hk : k < n) : IsSet (createTds b q) (b.td k) (b.data + k * r.1.reqsize)
      (if k + 1 < n then b.td (k + 1) else 0) (q.endp.toggle.testBit 0 ^^ k.bodd) := by
    rw [hcreate]
    exact (hbuilt.isSet k hk).congr (fill_mem_of_ne (td_ne hk le_rfl))
  have hchain : Linked id (fun a => ((createTds b q).mem a).next) (b.td 0)
      ((List.range n).map b.td) 0 := by
    rw [List.range_eq_range']
    refine (hbuilt.linked (by omega) hn).congr fun x hx => ?_
    obtain ⟨k, hk, rfl⟩ := List.mem_map.mp hx
    rw [List.mem_range'_1] at hk
    rw [id_eq, hcreate, fill_mem_of_ne (td_ne (by omega) le_rfl)]
  refine ⟨⟨⟨?_, ?_⟩, ?_, ?_, ?_, ?_⟩, fun k hk => (hset k hk).toggle, ?_⟩
  · exact hhead ▸ hchain
  · intro hzero
    obtain ⟨k, hk, heq⟩ := List.mem_map.mp hzero
    exact (b.td_pos k (List.mem_range.mp hk).le).ne' heq
  · intro a ha
    obtain ⟨k, hk, rfl⟩ := List.mem_map.mp ha
    have hk := hset k (List.mem_range.mp hk)
    rw [hk.next, hk.nextQtd]
  · have hrange : (List.range n).getLast? = some (n - 1) := by
      rw [List.getLast?_range, if_neg hn.ne']
    rw [List.getLast?_map, hrange]
    exact congrArg some hlast.symm
  · rw [List.range_succ, List.map_append]
    exact List.Perm.refl _
  · intro k hk
    rcases hk.lt_or_eq with hk | rfl
    · exact (hset k hk).data
    · rw [hcreate, hspare.data, hdata]
      exact congrArg _ (congrArg _ hreqsize.symm)
  · rw [hcreate, fill_endp_toggle, Nat.bodd_succ]
    have htoggle : q₁.endp.toggle.testBit 0 = (q.endp.toggle.testBit 0 ^^ n.bodd) := hbuilt.toggle
    rw [htoggle]
    cases q.endp.toggle.testBit 0 <;> simp

/-! ### Whole runs -/

/-- A queue that is created starts from its descriptors, whatever it has for its queue head. -/
lemma Holds.of_create {ep : Endpoint} {address speed : ℕ} {hub : Option (ℕ × ℕ)} {reqsize : ℕ}
    {reqcount : ℤ} {reqtiming : ℕ} {frames frames' : ℕ → ℕ} {dummyQh : ℕ} {mem : ℕ → IntrQtd}
    {b : Blocks (adjustCount reqcount)}
    (h : createIntrQueue ep address speed hub reqsize reqcount reqtiming frames dummyQh mem b =
      some (frames', q)) :
    Holds b q ((List.range (adjustCount reqcount)).map b.td) ∧
      q.toggles (adjustCount reqcount) [] =
        (List.range (adjustCount reqcount)).map (fun k => ep.toggle.testBit 0 ^^ k.bodd) ∧
      q.endp.toggle.testBit 0 = (ep.toggle.testBit 0 ^^ (adjustCount reqcount + 1).bodd) := by
  have hpos : 0 < adjustCount reqcount := by
    rw [adjustCount]
    split <;> omega
  rw [createIntrQueue] at h
  split at h
  · exact absurd h (by simp)
  split at h
  · exact absurd h (by simp)
  obtain ⟨frames'', -, heq⟩ := Option.map_eq_some_iff.mp h
  obtain rfl := (Prod.mk.inj heq).2
  obtain ⟨hholds, htoggles, hendp⟩ := createTds_holds b hpos
    { qh := ⟨0, 0, 0, 0, .zero⟩, head := 0, tail := 0, spare := 0, data := b.data, endp := ep,
      speed := speed, reqsize := reqsize, mem := mem }
  refine ⟨⟨hholds.chain, hholds.linked, hholds.tail, hholds.perm, hholds.data⟩, ?_, hendp⟩
  have hfollow := follow_eq hholds.chain.1
  rw [List.length_map, List.length_range] at hfollow
  rw [toggles, linkedToggles, List.append_nil]
  simp only
  rw [hfollow, List.map_map]
  exact List.map_congr_left fun k hk => htoggles k (List.mem_range.mp hk)

/-- Bits that alternate from either one on are none. -/
lemma eq_nil_of_alternates {bs : List Bool} (h : Alternates t bs) (h' : Alternates (!t) bs) :
    bs = [] := by
  cases bs with
  | nil => rfl
  | cons c bs =>
    have : t = !t := h.1.symm.trans h'.1
    cases t <;> cases this

end IntrQueue

/-- Over every run the queue consists of its descriptors and a spare one. The toggles of the descriptors
alternate in the order of their execution exactly if no poll finds the head executed, which would link
the spare descriptor: that has skipped one toggle. -/
theorem intrQueue_iff {ep : Endpoint} {address speed : ℕ} {hub : Option (ℕ × ℕ)} {reqsize : ℕ}
    {reqcount : ℤ} {reqtiming : ℕ} {frames frames' : ℕ → ℕ} {dummyQh : ℕ} {mem : ℕ → IntrQtd}
    {b : Blocks (adjustCount reqcount)} {q : IntrQueue}
    (h : createIntrQueue ep address speed hub reqsize reqcount reqtiming frames dummyQh mem b =
      some (frames', q)) (es : List Event) :
    ((∀ p, p <+: es → ∀ q' ∈ exec IntrQueue.step q p, q'.Consists (adjustCount reqcount)) ∧
        Alternates (ep.toggle.testBit 0) (q.toggles (adjustCount reqcount) es)) ↔
      Meets IntrQueue.step (fun q e => e = .poll → q.Active q.head) q es := by
  have hpos : 0 < adjustCount reqcount := by
    rw [adjustCount]
    split <;> omega
  obtain ⟨hholds, htoggles, hendp⟩ := IntrQueue.Holds.of_create h
  have hconsists : ∀ p, p <+: es → ∀ q' ∈ exec IntrQueue.step q p,
      q'.Consists (adjustCount reqcount) := by
    intro p _ q' hq'
    have hstep (r : IntrQueue) (e : Event) (r' : IntrQueue) (hr : ∃ l, IntrQueue.Holds b r l)
        (hr' : r.step e = some r') : ∃ l, IntrQueue.Holds b r' l := by
      obtain ⟨l, hl⟩ := hr
      exact Option.some.inj hr' ▸ hl.after hpos e
    obtain ⟨l, hl⟩ := invariant hstep ⟨_, hholds⟩ hq'
    exact hl.consists
  have hlater := hholds.linkedToggles_alternate hpos es
  rw [hendp, Nat.bodd_succ] at hlater
  have hsplit : q.toggles (adjustCount reqcount) es =
      (List.range (adjustCount reqcount)).map (fun k => ep.toggle.testBit 0 ^^ k.bodd) ++
        q.linkedToggles es := by
    rw [← htoggles, IntrQueue.toggles, IntrQueue.toggles, IntrQueue.linkedToggles, List.append_nil]
  rw [hsplit, Alternates.append_iff, List.length_map, List.length_range,
    ← hholds.linkedToggles_eq_nil hpos]
  constructor
  · rintro ⟨-, -, halternates⟩
    refine IntrQueue.eq_nil_of_alternates halternates ?_
    convert hlater using 1
    cases ep.toggle.testBit 0 <;> simp
  · intro hnil
    rw [hnil]
    exact ⟨hconsists, Alternates.map_range _ _, trivial⟩

/-- Descriptors that lie one after the other. -/
def Blocks.consecutive {n : ℕ} (hn : 64 * (n + 2) ≤ 2 ^ 32) : Blocks n where
  intrq := 64 * (n + 2)
  data := 64 * (n + 4)
  td := fun k => 64 * (k + 1)
  td_inj := fun j _ k _ h => by
    simp only at h
    omega
  td_pos := fun k _ => by omega
  td_lt := fun k hk => by omega
  td_aligned := fun k _ => Nat.dvd_mul_right ..

/-- An endpoint whose next toggle is zero. -/
def sampleEndpoint : Endpoint := ⟨0x81, .in_, 0, 8, 3, 10⟩

/-- A queue of two descriptors for it. -/
def sampleQueue : Option ((ℕ → ℕ) × IntrQueue) :=
  createIntrQueue sampleEndpoint 1 2 none 8 2 1024 (fun _ => 0x1902) 0x1900 (fun _ => ⟨.zero, 0, 0⟩)
    (Blocks.consecutive (by decide))

theorem intrQueue_iff_sample : ∃ frames q, sampleQueue = some (frames, q) ∧
    (∀ p, p <+: [Event.poll] → ∀ q' ∈ exec IntrQueue.step q p, q'.Consists (adjustCount 2)) ∧
      Alternates (sampleEndpoint.toggle.testBit 0) (q.toggles (adjustCount 2) [.poll]) := by
  obtain ⟨r, hr⟩ : ∃ r, sampleQueue = some r := ⟨_, rfl⟩
  have hmeets : sampleQueue.map (fun r => decide
      (Meets IntrQueue.step (fun q e => e = .poll → q.Active q.head) r.2 [.poll])) = some true := by
    decide +kernel
  rw [hr, Option.map_some, Option.some_inj, decide_eq_true_iff] at hmeets
  exact ⟨r.1, r.2, hr, (intrQueue_iff hr _).mpr hmeets⟩

/-- Once the head has been executed and the queue is polled, the descriptor that is linked behind the
tail has the same toggle as the tail. -/
theorem toggle_repeated : ∃ frames q, sampleQueue = some (frames, q) ∧
    ¬Alternates (sampleEndpoint.toggle.testBit 0)
      (q.toggles (adjustCount 2) [.complete 64 0x100 0 .zero, .poll]) := by
  obtain ⟨r, hr⟩ : ∃ r, sampleQueue = some r := ⟨_, rfl⟩
  have htoggles : sampleQueue.map (fun r => r.2.toggles (adjustCount 2) [.complete 64 0x100 0 .zero, .poll]) =
      some [false, true, true] := by decide +kernel
  refine ⟨r.1, r.2, hr, ?_⟩
  rw [hr, Option.map_some, Option.some_inj] at htoggles
  rw [htoggles]
  decide

end ApuBios.Ehci
