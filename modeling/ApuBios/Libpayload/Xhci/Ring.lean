import ApuBios.Libpayload.Xhci.Basic

/-!
# Transfer rings of the XHCI driver

A ring has 31 blocks and a link back to the first one. Blocks are queued one after the other, and each
time the link is passed, it takes over the chain bit and the cycle bit of the block before it.
-/

namespace ApuBios.Xhci

open Usb

variable {tr tr₀ tr' : TransferRing} {trb : Trb} {trbs : List Trb} {tok tok' : Tok} {v p pcs fuel : ℕ}

/-! ### The fields of a block -/

/-- Two fields that share no bit. -/
def Tok.Apart (tok tok' : Tok) : Prop :=
  tok.inStatus ≠ tok'.inStatus ∨ tok.field.Apart tok'.field

instance (tok tok' : Tok) : Decidable (tok.Apart tok') := inferInstanceAs (Decidable (_ ∨ _))

lemma Tok.field_le (tok : Tok) : tok.field.start + tok.field.len ≤ 32 := by
  cases tok <;> decide

namespace Trb

lemma get_lt : trb.get tok < 2 ^ tok.field.len := BitField.get_lt

@[simp] lemma get_set_self : (trb.set tok v).get tok = v % 2 ^ tok.field.len := by
  rw [get, set]
  split
  · exact BitField.get_set_self tok.field_le
  · exact BitField.get_set_self tok.field_le

lemma get_set_of_apart (h : tok.Apart tok') : (trb.set tok' v).get tok = trb.get tok := by
  rw [get, get, set]
  rcases h with h | h
  · cases hin : tok.inStatus <;> cases hin' : tok'.inStatus <;> simp_all
  · split <;> split
    · exact BitField.get_set_of_apart tok.field_le tok'.field_le h
    · rfl
    · rfl
    · exact BitField.get_set_of_apart tok.field_le tok'.field_le h

@[simp] lemma set_ptrLow : (trb.set tok v).ptrLow = trb.ptrLow := by
  rw [set]
  split <;> rfl

end Trb

lemma clearTrb_get (pcs : ℕ) (h : tok ≠ .c) : (clearTrb pcs).get tok = 0 := by
  rw [clearTrb]
  split
  · cases tok <;> first | rfl | exact absurd rfl h
  · cases tok <;> rfl

/-! ### The ring -/

/-- The address of the `i`-th block. -/
def TransferRing.slot (tr : TransferRing) (i : ℕ) : ℕ := tr.ring + 16 * i

/-- The block that links back to the first one. -/
def TransferRing.linkTrb (tr : TransferRing) : Trb := tr.mem (tr.slot 31)

/-- A ring of 31 blocks that are no links and of a link back to the first one. The next block to
queue is the `p`-th one. -/
structure IsCycleRing (tr : TransferRing) (p : ℕ) : Prop where
  bound : tr.ring + 16 * transferRingSize ≤ 2 ^ 32
  lt : p < 31
  cur : tr.cur = tr.slot p
  pcs : tr.pcs ≤ 1
  normal : ∀ i < 31, (tr.mem (tr.slot i)).get .tt ≠ trbLink
  link : tr.linkTrb.get .tt = trbLink
  back : tr.linkTrb.ptrLow = tr.ring

lemma slot_eq_slot {i j : ℕ} : tr.slot i = tr.slot j ↔ i = j := by
  rw [TransferRing.slot, TransferRing.slot]
  omega

lemma slot_congr {i : ℕ} (h : tr'.ring = tr.ring) : tr'.slot i = tr.slot i := by
  rw [TransferRing.slot, TransferRing.slot, h]

lemma initCycleRing_mem {n q : ℕ} : (initCycleRing tr n).mem q =
    if q = tr.ring + 16 * (n - 1) then
      { ((if tr.ring ≤ q ∧ q < tr.ring + 16 * n then ⟨0, 0, 0, 0⟩ else tr.mem q).set .tt trbLink).set .tc 1 with
        ptrLow := virtToPhys tr.ring }
    else if tr.ring ≤ q ∧ q < tr.ring + 16 * n then ⟨0, 0, 0, 0⟩ else tr.mem q := by
  rw [initCycleRing]
  simp only [TransferRing.modify, Function.update_apply]
  split
  · rename_i hq
    rw [hq]
  · rfl

/-- A new ring is one, whatever the memory has held. Its link toggles the cycle state. -/
theorem isCycleRing_init (tr : TransferRing) (h : tr.ring + 16 * transferRingSize ≤ 2 ^ 32) :
    IsCycleRing (initCycleRing tr transferRingSize) 0 ∧
      (initCycleRing tr transferRingSize).pcs = 1 ∧
      (initCycleRing tr transferRingSize).linkTrb.get .tc = 1 := by
  have hnormal (i : ℕ) (hi : i < 31) :
      (initCycleRing tr transferRingSize).mem (tr.slot i) = ⟨0, 0, 0, 0⟩ := by
    rw [initCycleRing_mem, TransferRing.slot, transferRingSize, if_neg (by omega), if_pos (by omega)]
  have hlink : (initCycleRing tr transferRingSize).linkTrb = ⟨virtToPhys tr.ring, 0, 0, 6146⟩ := by
    have hslot : tr.ring ≤ tr.slot 31 ∧ tr.slot 31 < tr.ring + 16 * transferRingSize := by
      rw [TransferRing.slot, transferRingSize]
      omega
    have hlast : tr.slot 31 = tr.ring + 16 * (transferRingSize - 1) := rfl
    have hring : (initCycleRing tr transferRingSize).slot 31 = tr.slot 31 := rfl
    rw [TransferRing.linkTrb, initCycleRing_mem, hring, if_pos hlast, if_pos hslot]
    have hcontrol : (((Trb.mk 0 0 0 0).set .tt trbLink).set .tc 1) = ⟨0, 0, 0, 6146⟩ := by decide
    rw [hcontrol]
  refine ⟨⟨h, by norm_num, rfl, le_rfl, fun i hi => ?_, ?_, ?_⟩, rfl, ?_⟩
  · have hslot : (initCycleRing tr transferRingSize).slot i = tr.slot i := rfl
    rw [hslot, hnormal i hi]
    decide
  · rw [hlink]
    exact (by decide : Tok.tt.field.get 6146 = trbLink)
  · rw [transferRingSize] at h
    rw [hlink, virtToPhys_eq]
    exact Nat.mod_eq_of_lt (by omega)
  · rw [hlink]
    exact (by decide : Tok.tc.field.get 6146 = 1)

/-! ### Queueing one block -/

/-- What queueing a block at the `p`-th position leaves. The link, which is passed after the last
position, takes over the chain bit and the cycle bit, and toggles the cycle state if it says so. -/
structure Enqueued (tr : TransferRing) (p : ℕ) (trb : Trb) (tr' : TransferRing) : Prop where
  ring : tr'.ring = tr.ring
  cur : tr'.cur = tr.slot ((p + 1) % 31)
  pcs : tr'.pcs = if p = 30 ∧ tr.linkTrb.get .tc ≠ 0 then tr.pcs ^^^ 1 else tr.pcs
  block : tr'.mem (tr.slot p) = trb.set .c tr.pcs
  others : ∀ i < 31, i ≠ p → tr'.mem (tr.slot i) = tr.mem (tr.slot i)
  link : tr'.linkTrb =
    if p = 30 then (tr.linkTrb.set .ch (trb.get .ch)).set .c tr.pcs else tr.linkTrb

lemma enqueueTrb_eq : enqueueTrb fuel (tr.modify tr.cur fun _ => trb) =
    passLinks (trb.get .ch) fuel
      ⟨tr.ring, tr.cur + 16, tr.pcs, Function.update tr.mem tr.cur (trb.set .c tr.pcs)⟩ := by
  rw [enqueueTrb]
  simp [TransferRing.modify]

lemma passLinks_of_ne {chain : ℕ} (h : (tr.mem tr.cur).get .tt ≠ trbLink) (hfuel : 0 < fuel) :
    passLinks chain fuel tr = some tr := by
  obtain ⟨fuel, rfl⟩ := Nat.exists_eq_succ_of_ne_zero hfuel.ne'
  rw [passLinks, if_neg h]

lemma passLinks_link (tr : TransferRing) {chain : ℕ} (h : (tr.mem tr.cur).get .tt = trbLink) :
    passLinks chain (fuel + 1) tr = passLinks chain fuel
      ⟨tr.ring, (tr.mem tr.cur).ptrLow,
        if (tr.mem tr.cur).get .tc ≠ 0 then tr.pcs ^^^ 1 else tr.pcs,
        Function.update tr.mem tr.cur (((tr.mem tr.cur).set .ch chain).set .c tr.pcs)⟩ := by
  rw [passLinks, if_pos h]
  simp only [TransferRing.modify, Function.update_self, Trb.set_ptrLow]
  split <;> rfl

/-- Before the last position there is no link to pass. -/
lemma enqueueTrb_of_lt (h : IsCycleRing tr p) (hp : p < 30) :
    ∃ tr', (∀ fuel, 1 < fuel → enqueueTrb fuel (tr.modify tr.cur fun _ => trb) = some tr') ∧
      Enqueued tr p trb tr' := by
  have hcur : tr.cur + 16 = tr.slot (p + 1) := by
    rw [h.cur, TransferRing.slot, TransferRing.slot]
    omega
  have hmem (i : ℕ) (hi : i ≠ p) : Function.update tr.mem tr.cur (trb.set .c tr.pcs) (tr.slot i) =
      tr.mem (tr.slot i) := by
    refine Function.update_of_ne ?_ _ _
    rw [h.cur]
    exact fun heq => hi (slot_eq_slot.mp heq)
  refine ⟨⟨tr.ring, tr.cur + 16, tr.pcs, Function.update tr.mem tr.cur (trb.set .c tr.pcs)⟩, ?_,
    rfl, ?_, ?_, ?_, fun i _ => hmem i, ?_⟩
  · intro fuel hfuel
    rw [enqueueTrb_eq]
    refine passLinks_of_ne ?_ (by omega)
    simp only
    rw [hcur, hmem (p + 1) (by omega)]
    exact h.normal (p + 1) (by omega)
  · rw [Nat.mod_eq_of_lt (by omega)]
    exact hcur
  · rw [if_neg (by omega)]
  · rw [← h.cur]
    exact Function.update_self ..
  · rw [if_neg (by omega)]
    exact hmem 31 (by omega)

/-- After the last position the link is passed. -/
lemma enqueueTrb_last (h : IsCycleRing tr 30) :
    ∃ tr', (∀ fuel, 1 < fuel → enqueueTrb fuel (tr.modify tr.cur fun _ => trb) = some tr') ∧
      Enqueued tr 30 trb tr' := by
  set mem := Function.update tr.mem tr.cur (trb.set .c tr.pcs) with hmem
  set link := (tr.linkTrb.set .ch (trb.get .ch)).set .c tr.pcs with hlink
  have hcur : tr.cur + 16 = tr.slot 31 := by
    rw [h.cur, TransferRing.slot, TransferRing.slot]
  have hold : mem (tr.slot 31) = tr.linkTrb := by
    refine Function.update_of_ne ?_ _ _
    rw [h.cur]
    exact fun heq => absurd (slot_eq_slot.mp heq) (by norm_num)
  have hslot (i : ℕ) (hi : i < 31) : Function.update mem (tr.slot 31) link (tr.slot i) =
      if i = 30 then trb.set .c tr.pcs else tr.mem (tr.slot i) := by
    rw [Function.update_of_ne fun heq => absurd (slot_eq_slot.mp heq) (by omega), hmem, h.cur]
    by_cases hi' : i = 30
    · rw [if_pos hi', hi', Function.update_self]
    · rw [if_neg hi', Function.update_of_ne fun heq => hi' (slot_eq_slot.mp heq)]
  have hgoto : (mem (tr.cur + 16)).get .tt = trbLink := by
    rw [hcur, hold]
    exact h.link
  set tr' : TransferRing := ⟨tr.ring, tr.ring, if tr.linkTrb.get .tc ≠ 0 then tr.pcs ^^^ 1 else tr.pcs,
    Function.update mem (tr.slot 31) link⟩ with htr'
  have hslot' : tr'.slot 31 = tr.slot 31 := slot_congr rfl
  refine ⟨tr', ?_, rfl, rfl, ?_, ?_, ?_, ?_⟩
  · intro fuel hfuel
    obtain ⟨fuel, rfl⟩ := Nat.exists_eq_succ_of_ne_zero (Nat.ne_of_gt (Nat.zero_lt_of_lt hfuel))
    rw [enqueueTrb_eq, ← hmem, passLinks_link ⟨tr.ring, tr.cur + 16, tr.pcs, mem⟩ hgoto]
    simp only
    rw [hcur, hold, h.back]
    refine passLinks_of_ne ?_ (by omega)
    have hfirst : tr.ring = tr.slot 0 := rfl
    simp only
    rw [← hlink, hfirst, hslot 0 (by norm_num), if_neg (by norm_num)]
    exact h.normal 0 (by norm_num)
  · rw [htr']
    simp
  · exact (hslot 30 (by norm_num)).trans (if_pos rfl)
  · exact fun i hi hne => (hslot i hi).trans (if_neg hne)
  · rw [TransferRing.linkTrb, hslot', if_pos rfl, htr']
    simp only [Function.update_self]
    exact hlink

/-- A block can be queued at any position. -/
lemma enqueueTrb_enqueued (h : IsCycleRing tr p) (trb : Trb) :
    ∃ tr', (∀ fuel, 1 < fuel → enqueueTrb fuel (tr.modify tr.cur fun _ => trb) = some tr') ∧
      Enqueued tr p trb tr' := by
  rcases Nat.lt_or_ge p 30 with hp | hp
  · exact enqueueTrb_of_lt h hp
  · obtain rfl : p = 30 := by
      have := h.lt
      omega
    exact enqueueTrb_last h

namespace Enqueued

lemma ne_slot (h : Enqueued tr p trb tr') {i : ℕ} : tr'.slot i = tr.slot i := slot_congr h.ring

lemma toggle (h : Enqueued tr p trb tr') : tr'.linkTrb.get .tc = tr.linkTrb.get .tc := by
  rw [h.link]
  split
  · rw [Trb.get_set_of_apart (by decide), Trb.get_set_of_apart (by decide)]
  · rfl

/-- A block that is no link leaves a ring. -/
lemma isCycleRing (h : Enqueued tr p trb tr') (hring : IsCycleRing tr p)
    (htrb : trb.get .tt ≠ trbLink) : IsCycleRing tr' ((p + 1) % 31) := by
  refine ⟨h.ring ▸ hring.bound, Nat.mod_lt _ (by norm_num), h.cur.trans h.ne_slot.symm, ?_, ?_, ?_, ?_⟩
  · have hpcs := hring.pcs
    rw [h.pcs]
    split
    · interval_cases tr.pcs <;> decide
    · exact hpcs
  · intro i hi
    rw [h.ne_slot]
    by_cases hip : i = p
    · rw [hip, h.block, Trb.get_set_of_apart (by decide)]
      exact htrb
    · rw [h.others i hi hip]
      exact hring.normal i hi
  · rw [h.link]
    split
    · rw [Trb.get_set_of_apart (by decide), Trb.get_set_of_apart (by decide)]
      exact hring.link
    · exact hring.link
  · rw [h.link, h.ring]
    split
    · rw [Trb.set_ptrLow, Trb.set_ptrLow]
      exact hring.back
    · exact hring.back

end Enqueued

/-! ### Queueing several blocks -/

/-- The cycle state at the `q`-th position, counted on past the link. -/
def TransferRing.cycleAt (tr : TransferRing) (q : ℕ) : ℕ :=
  if 31 ≤ q ∧ tr.linkTrb.get .tc ≠ 0 then tr.pcs ^^^ 1 else tr.pcs

/-- What is left after up to 31 blocks have been queued from the `p`-th position on. They stand one
after the other, each with the cycle state of its position. If the link is passed, it has the chain bit
and the cycle bit of the block before it, and if it toggles, the cycle state flips. -/
structure Queued (tr : TransferRing) (p : ℕ) (trbs : List Trb) (tr' : TransferRing) : Prop where
  ring : tr'.ring = tr.ring
  isCycleRing : IsCycleRing tr' ((p + trbs.length) % 31)
  pcs : tr'.pcs = tr.cycleAt (p + trbs.length)
  stands : ∀ (i : ℕ) (hi : i < trbs.length), tr'.mem (tr.slot ((p + i) % 31)) = trbs[i]
  cycle : ∀ (i : ℕ) (hi : i < trbs.length), trbs[i].get .c = tr.cycleAt (p + i)
  passed : ∀ (i : ℕ) (hi : i < trbs.length), p + i = 30 →
    tr'.linkTrb.get .ch = trbs[i].get .ch ∧ tr'.linkTrb.get .c = trbs[i].get .c
  toggle : tr'.linkTrb.get .tc = tr.linkTrb.get .tc

lemma queued_nil (h : IsCycleRing tr p) : Queued tr p [] tr := by
  have hlt := h.lt
  refine ⟨rfl, ?_, ?_, by simp, by simp, by simp, rfl⟩
  · rw [List.length_nil, Nat.add_zero, Nat.mod_eq_of_lt hlt]
    exact h
  · rw [TransferRing.cycleAt, List.length_nil, if_neg (by omega)]

/-- One more block can be queued as long as there are fewer than 31. -/
lemma Queued.snoc (h : Queued tr₀ p trbs tr) (hp : p < 31) (hlen : trbs.length < 31)
    (htrb : trb.get .tt ≠ trbLink) :
    ∃ tr', (∀ fuel, 1 < fuel → enqueueTrb fuel (tr.modify tr.cur fun _ => trb) = some tr') ∧
      Queued tr₀ p (trbs ++ [trb.set .c tr.pcs]) tr' := by
  obtain ⟨tr', htr', henq⟩ := enqueueTrb_enqueued h.isCycleRing trb
  have hslot (i : ℕ) : tr₀.slot i = tr.slot i := (slot_congr h.ring).symm
  have hpcs : tr.pcs % 2 = tr.pcs := Nat.mod_eq_of_lt (by linarith [h.isCycleRing.pcs])
  have hlast : (p + trbs.length) % 31 = 30 ↔ p + trbs.length = 30 := by omega
  refine ⟨tr', htr', henq.ring.trans h.ring, ?_, ?_, ?_, ?_, ?_, henq.toggle.trans h.toggle⟩
  · have hring := henq.isCycleRing h.isCycleRing htrb
    rw [Nat.mod_add_mod] at hring
    rw [List.length_append, List.length_singleton, ← Nat.add_assoc]
    exact hring
  · rw [henq.pcs, h.pcs, h.toggle, List.length_append, List.length_singleton]
    simp only [TransferRing.cycleAt, hlast]
    by_cases htc : tr₀.linkTrb.get .tc ≠ 0
    · rcases Nat.lt_trichotomy (p + trbs.length) 30 with hlt | heq | hgt
      · rw [if_neg (by omega), if_neg (by omega), if_neg (by omega)]
      · rw [if_pos ⟨heq, htc⟩, if_neg (by omega), if_pos ⟨by omega, htc⟩]
      · rw [if_neg (by omega), if_pos ⟨by omega, htc⟩, if_pos ⟨by omega, htc⟩]
    · rw [if_neg fun hc => htc hc.2, if_neg fun hc => htc hc.2, if_neg fun hc => htc hc.2]
  · intro i hi
    rw [List.length_append, List.length_singleton] at hi
    rcases Nat.lt_succ_iff_lt_or_eq.mp hi with hi' | rfl
    · rw [List.getElem_append_left hi', ← h.stands i hi', hslot]
      exact henq.others _ (Nat.mod_lt _ (by norm_num)) (by omega)
    · rw [List.getElem_concat_length rfl, hslot]
      exact henq.block
  · intro i hi
    rw [List.length_append, List.length_singleton] at hi
    rcases Nat.lt_succ_iff_lt_or_eq.mp hi with hi' | rfl
    · rw [List.getElem_append_left hi']
      exact h.cycle i hi'
    · rw [List.getElem_concat_length rfl, Trb.get_set_self, ← h.pcs]
      exact hpcs
  · intro i hi hpi
    rw [List.length_append, List.length_singleton] at hi
    rcases Nat.lt_succ_iff_lt_or_eq.mp hi with hi' | rfl
    · rw [List.getElem_append_left hi', henq.link, if_neg (by omega)]
      exact h.passed i hi' hpi
    · rw [List.getElem_concat_length rfl, henq.link, if_pos (hlast.mpr hpi)]
      have hch : trb.get .ch % 2 = trb.get .ch := Nat.mod_eq_of_lt Trb.get_lt
      refine ⟨?_, ?_⟩
      · rw [Trb.get_set_of_apart (by decide), Trb.get_set_self]
        rw [Trb.get_set_of_apart (by decide : Tok.Apart .ch .c)]
        exact hch
      · rw [Trb.get_set_self, Trb.get_set_self]

end ApuBios.Xhci
