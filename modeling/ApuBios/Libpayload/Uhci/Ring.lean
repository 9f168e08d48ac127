import Mathlib.Order.Interval.Finset.Nat
import ApuBios.Libpayload.Uhci.IntrQueue

/-!
# The ring of an interrupt queue of the UHCI driver

The descriptors that have been read and those that have been executed are counted without wrapping
around. The `m`th descriptor to be executed is that at `m` modulo the size of the ring. This order is
lost when the whole ring has been executed before anything is read.
-/

namespace ApuBios.Uhci

open Usb Transition

variable {P : Type*} {n r x i m previous : ℕ} {q q' : IntrQ P} {t : Bool}

/-! ### Positions on the ring -/

/-- In a window of the size of the ring each position is met once. -/
lemma eq_of_mod_eq {a b c : ℕ} (hb : a ≤ b) (hb' : b < a + n) (hc : a ≤ c) (hc' : c < a + n)
    (h : b % n = c % n) : b = c :=
  Nat.mod_injOn_Ico a n (by simp [hb, hb']) (by simp [hc, hc']) h

/-- The number of the last descriptor of the list, once `r` descriptors have been read. -/
def last (n r : ℕ) : ℕ := if r = 0 then n - 1 else r + n - 2

lemma last_zero : last n 0 = n - 1 := rfl

lemma last_succ : last n (r + 1) = r + n - 1 := by
  rw [last, if_neg (Nat.succ_ne_zero r)]
  omega

lemma last_cases : r = 0 ∧ last n r = n - 1 ∨ 0 < r ∧ last n r = r + n - 2 := by
  rcases Nat.eq_zero_or_pos r with rfl | hpos
  · exact .inl ⟨rfl, rfl⟩
  · exact .inr ⟨hpos, if_neg hpos.ne'⟩

lemma le_last (hn : 2 ≤ n) : r ≤ last n r := by
  rcases last_cases (n := n) (r := r) with h | h <;> omega

lemma last_lt (hn : 2 ≤ n) : last n r < r + n := by
  rcases last_cases (n := n) (r := r) with h | h <;> omega

/-- Two of the descriptors from the one that was read last to the last one of the list differ. -/
lemma eq_of_mod_eq_of_le_last (hn : 2 ≤ n) {a b : ℕ} (ha : r ≤ a + 1) (ha' : a ≤ last n r)
    (hb : r ≤ b + 1) (hb' : b ≤ last n r) (h : a % n = b % n) : a = b := by
  cases r with
  | zero =>
    rw [last_zero] at ha' hb'
    exact eq_of_mod_eq (Nat.zero_le a) (by omega) (Nat.zero_le b) (by omega) h
  | succ r =>
    rw [last_succ] at ha' hb'
    exact eq_of_mod_eq (Nat.le_of_succ_le_succ ha) (by omega) (Nat.le_of_succ_le_succ hb) (by omega) h

namespace IntrQ

/-! ### Requeueing a descriptor -/

@[simp] lemma modifyTd_self {f : Td → Td} : (q.modifyTd i f).tds i = f (q.tds i) :=
  Function.update_self ..

lemma modifyTd_of_ne {f : Td → Td} (h : m ≠ i) : (q.modifyTd i f).tds m = q.tds m :=
  Function.update_of_ne h ..

/-- The fields beside the descriptors and the tail are not changed. -/
lemma requeue_frame (q : IntrQ P) (previous : ℕ) : (q.requeue previous).elementlinkptr = q.elementlinkptr ∧
    (q.requeue previous).lastread = q.lastread ∧ (q.requeue previous).total = q.total ∧
    (q.requeue previous).data = q.data ∧ (q.requeue previous).reqsize = q.reqsize ∧
    (q.requeue previous).chunk = q.chunk := by
  rw [requeue]
  simp only
  split <;> exact ⟨rfl, rfl, rfl, rfl, rfl, rfl⟩

lemma requeue_of_lastTd_ne (h : q.lastTd ≠ previous) : q.requeue previous =
    ({ ((q.modifyTd previous fun td =>
          { td with ctrlsts := td.ctrlsts &&& Word.not 32 tdStatusMask, ptr := none }).modifyTd q.lastTd
        fun td => { td with ptr := some previous }) with lastTd := previous }).modifyTd previous
      fun td => { td with ctrlsts := td.ctrlsts ||| tdStatusActive } := by
  rw [requeue]
  exact congrArg (modifyTd · previous _) (if_pos h)

lemma requeue_of_lastTd_eq (h : q.lastTd = previous) : q.requeue previous =
    (q.modifyTd previous fun td =>
        { td with ctrlsts := td.ctrlsts &&& Word.not 32 tdStatusMask, ptr := none }).modifyTd previous
      fun td => { td with ctrlsts := td.ctrlsts ||| tdStatusActive } := by
  rw [requeue]
  exact congrArg (modifyTd · previous _) (if_neg (not_not.mpr h))

lemma requeue_lastTd : (q.requeue previous).lastTd = previous := by
  by_cases h : q.lastTd = previous
  · rw [requeue_of_lastTd_eq h]
    exact h
  · rw [requeue_of_lastTd_ne h]
    rfl

/-- The descriptor is active and ends the list. -/
lemma requeue_self : (q.requeue previous).tds previous =
    { q.tds previous with
      ctrlsts := (q.tds previous).ctrlsts &&& Word.not 32 tdStatusMask ||| tdStatusActive
      ptr := none } := by
  by_cases h : q.lastTd = previous
  · rw [requeue_of_lastTd_eq h, modifyTd_self, modifyTd_self]
  · rw [requeue_of_lastTd_ne h, modifyTd_self]
    simp only
    rw [modifyTd_of_ne (Ne.symm h), modifyTd_self]

/-- The last descriptor is linked to it. -/
lemma requeue_last (h : q.lastTd ≠ previous) : (q.requeue previous).tds q.lastTd =
    { q.tds q.lastTd with ptr := some previous } := by
  rw [requeue_of_lastTd_ne h, modifyTd_of_ne h]
  simp only
  rw [modifyTd_self, modifyTd_of_ne h]

lemma requeue_of_ne (h : i ≠ previous) (hlast : i ≠ q.lastTd) :
    (q.requeue previous).tds i = q.tds i := by
  by_cases heq : q.lastTd = previous
  · rw [requeue_of_lastTd_eq heq, modifyTd_of_ne h, modifyTd_of_ne h]
  · rw [requeue_of_lastTd_ne heq, modifyTd_of_ne h]
    simp only
    rw [modifyTd_of_ne hlast, modifyTd_of_ne h]

/-- No other descriptor changes its status. -/
lemma requeue_ctrlsts (h : i ≠ previous) :
    ((q.requeue previous).tds i).ctrlsts = (q.tds i).ctrlsts := by
  rcases eq_or_ne i q.lastTd with rfl | hlast
  · rw [requeue_last h]
  · rw [requeue_of_ne h hlast]

lemma requeue_token : ((q.requeue previous).tds i).token = (q.tds i).token := by
  rcases eq_or_ne i previous with rfl | h
  · rw [requeue_self]
  rcases eq_or_ne i q.lastTd with rfl | hlast
  · rw [requeue_last h]
  · rw [requeue_of_ne h hlast]

lemma active_iff {td : Td} : td.Active ↔ td.ctrlsts.testBit 23 = true := by
  rw [Td.Active, tdStatusActive, Nat.one_shiftLeft, Nat.and_two_pow]
  cases td.ctrlsts.testBit 23 <;> simp

lemma requeue_active : ((q.requeue previous).tds previous).Active := by
  rw [active_iff, requeue_self]
  simp only
  rw [Nat.testBit_or, tdStatusActive, Nat.one_shiftLeft, Nat.testBit_two_pow_self, Bool.or_true]

/-! ### The list of descriptors -/

/-- The links from the descriptor to be read next on lead through the ring to the last descriptor. -/
structure Ring (n r : ℕ) (q : IntrQ P) : Prop where
  total : q.total = n
  lastread : q.lastread = r % n
  lastTd : q.lastTd = last n r % n
  next : ∀ m, r ≤ m → m < last n r → (q.tds (m % n)).ptr = some ((m + 1) % n)
  terminated : (q.tds (last n r % n)).ptr = none

/-- The links followed from the descriptor at `lastread` visit descriptors in the order of the ring, none
twice, and end at the last one. -/
def InRingOrder (n : ℕ) (q : IntrQ P) : Prop :=
  ∃ k < n, (∀ j < k, (q.tds ((q.lastread + j) % n)).ptr = some ((q.lastread + j + 1) % n)) ∧
    (q.lastread + k) % n = q.lastTd ∧ (q.tds q.lastTd).ptr = none

lemma Ring.inRingOrder (h : Ring n r q) (hn : 2 ≤ n) : InRingOrder n q := by
  have hle := le_last (r := r) hn
  have hlt := last_lt (r := r) hn
  have hmod (j : ℕ) : (q.lastread + j) % n = (r + j) % n := by rw [h.lastread, Nat.mod_add_mod]
  refine ⟨last n r - r, by omega, fun j hj => ?_, ?_, ?_⟩
  · rw [Nat.add_assoc, hmod, hmod]
    exact h.next (r + j) (by omega) (by omega)
  · rw [hmod, h.lastTd]
    congr 1
    omega
  · rw [h.lastTd]
    exact h.terminated

lemma Ring.previous_eq (h : Ring n r q) (hn : 2 ≤ n) : q.previous = (r + n - 1) % n := by
  have hlt : r % n < n := Nat.mod_lt r (by omega)
  have hsum : (r + n - 1) % n = (r % n + (n - 1)) % n := by
    rw [Nat.mod_add_mod]
    congr 1
    omega
  rw [previous, h.lastread, h.total, hsum]
  split
  · rename_i hzero
    rw [hzero, Nat.zero_add, Nat.mod_eq_of_lt (by omega)]
  · rename_i hne
    have hwrap : r % n + (n - 1) = r % n - 1 + n := by omega
    rw [hwrap, Nat.add_mod_right]
    exact (Nat.mod_eq_of_lt (by omega)).symm

/-- The queue after a poll that has found an executed descriptor. -/
def advanced (q : IntrQ P) : IntrQ P :=
  let q := q.requeue q.previous
  { q with lastread := (q.lastread + 1) % q.total }

lemma poll_of_inactive (h : ¬(q.tds q.lastread).Active) : q.poll.2 = q.advanced := by
  rw [poll, if_pos h]
  rfl

/-- The descriptor before the one that is read is the last one of the list then. -/
lemma Ring.advanced (h : Ring n r q) (hn : 2 ≤ n) : Ring n (r + 1) q.advanced := by
  obtain ⟨-, hlastread, htotal, -⟩ := requeue_frame q q.previous
  have hprevious := h.previous_eq hn
  refine ⟨htotal.trans h.total, ?_, ?_, ?_, ?_⟩
  · change ((q.requeue q.previous).lastread + 1) % (q.requeue q.previous).total = _
    rw [hlastread, htotal, h.total, h.lastread, Nat.mod_add_mod]
  · change (q.requeue q.previous).lastTd = _
    rw [requeue_lastTd, hprevious, last_succ]
  · intro m hm hm'
    rw [last_succ] at hm'
    change ((q.requeue q.previous).tds (m % n)).ptr = _
    have hne : m % n ≠ q.previous := by
      rw [hprevious]
      intro heq
      have := eq_of_mod_eq (a := r) (by omega) (by omega) (by omega) (by omega) heq
      omega
    by_cases hlast : m = last n r
    · -- the last descriptor is linked to the one that is requeued
      have hlastTd : q.lastTd = m % n := h.lastTd.trans (by rw [hlast])
      rw [← hlastTd, requeue_last (hlastTd ▸ hne), hprevious]
      simp only
      congr 2
      rcases last_cases (n := n) (r := r) with hcase | hcase <;> omega
    · have hlt : m < last n r := by
        rcases last_cases (n := n) (r := r) with hcase | hcase <;> omega
      have hlastTd : m % n ≠ q.lastTd := by
        rw [h.lastTd]
        intro heq
        exact hlast (eq_of_mod_eq_of_le_last hn (by omega) hlt.le (by omega) le_rfl heq)
      rw [requeue_of_ne hne hlastTd]
      exact h.next m (by omega) hlt
  · change ((q.requeue q.previous).tds (last n (r + 1) % n)).ptr = none
    rw [last_succ, ← hprevious, requeue_self]

/-- Polls that find no executed descriptor leave the list as it is. -/
lemma poll_of_active (h : (q.tds q.lastread).Active) : q.poll.2 = q ∨
    q.elementlinkptr = none ∧ q.poll.2 = { q with elementlinkptr := some q.lastread } := by
  rw [poll, if_neg (not_not.mpr h)]
  split
  · rename_i hnone
    exact .inr ⟨hnone, rfl⟩
  · exact .inl rfl

/-- A completion changes the status of one descriptor. -/
lemma step_complete {ctrlsts : ℕ} {packet : P} {stays : Bool}
    (h : q.step (.complete ctrlsts packet stays) = some q') : ∃ i, q.elementlinkptr = some i ∧
      (q.tds i).Active ∧ ctrlsts &&& tdStatusActive = 0 ∧ q' = q.complete i ctrlsts packet stays := by
  obtain ⟨i, hi, hif⟩ := Option.bind_eq_some_iff.mp h
  split at hif
  · rename_i hguard
    exact ⟨i, hi, hguard.1, hguard.2, (Option.some.inj hif).symm⟩
  · cases hif

lemma complete_tds {ctrlsts : ℕ} {packet : P} {stays : Bool} :
    (q.complete i ctrlsts packet stays).tds =
      (q.modifyTd i fun td => { td with ctrlsts := ctrlsts }).tds := rfl

lemma complete_self {ctrlsts : ℕ} {packet : P} {stays : Bool} :
    (q.complete i ctrlsts packet stays).tds i = { q.tds i with ctrlsts := ctrlsts } := by
  rw [complete_tds, modifyTd_self]

lemma complete_of_ne {ctrlsts : ℕ} {packet : P} {stays : Bool} (h : m ≠ i) :
    (q.complete i ctrlsts packet stays).tds m = q.tds m := by
  rw [complete_tds, modifyTd_of_ne h]

lemma complete_ptr {ctrlsts : ℕ} {packet : P} {stays : Bool} :
    ((q.complete i ctrlsts packet stays).tds m).ptr = (q.tds m).ptr := by
  rcases eq_or_ne m i with rfl | hne
  · rw [complete_self]
  · rw [complete_of_ne hne]

lemma Ring.complete (h : Ring n r q) (i ctrlsts : ℕ) (packet : P) (stays : Bool) :
    Ring n r (q.complete i ctrlsts packet stays) :=
  ⟨h.total, h.lastread, h.lastTd, fun m hm hm' => complete_ptr.trans (h.next m hm hm'),
    complete_ptr.trans h.terminated⟩

/-- The descriptors form a ring after every event. -/
lemma Ring.step (h : Ring n r q) (hn : 2 ≤ n) {e : Event P} (he : q.step e = some q') :
    ∃ r, Ring n r q' := by
  cases e with
  | poll =>
    obtain rfl := Option.some.inj he
    by_cases hactive : (q.tds q.lastread).Active
    · rcases poll_of_active hactive with heq | ⟨-, heq⟩
      · rw [heq]
        exact ⟨r, h⟩
      · rw [heq]
        exact ⟨r, h.total, h.lastread, h.lastTd, h.next, h.terminated⟩
    · rw [poll_of_inactive hactive]
      exact ⟨r + 1, h.advanced hn⟩
  | complete ctrlsts packet stays =>
    obtain ⟨i, -, -, -, rfl⟩ := step_complete he
    exact ⟨r, h.complete i ctrlsts packet stays⟩

/-! ### How far the controller has come -/

/-- The controller has executed `x` descriptors. It has come to the next one, has reached the end of the
list, or has stopped at the one that it has executed. -/
structure Progress (n r x : ℕ) (q : IntrQ P) : Prop where
  le : r ≤ x
  le_last : x ≤ last n r + 1
  active : ∀ m, r ≤ m + 1 → m ≤ last n r → ((q.tds (m % n)).Active ↔ x ≤ m)
  position : q.elementlinkptr = none ∨ (x ≤ last n r ∧ q.elementlinkptr = some (x % n)) ∨
    (0 < x ∧ q.elementlinkptr = some ((x - 1) % n))

/-- The poll would requeue a descriptor that has been executed but not been read. -/
def Overruns (q : IntrQ P) : Prop :=
  ¬(q.tds q.lastread).Active ∧ q.lastTd = q.previous ∧ ¬(q.tds q.previous).Active

instance (q : IntrQ P) : Decidable q.Overruns := inferInstanceAs (Decidable (_ ∧ _))

/-- A descriptor is found executed exactly if there is one that has not been read. -/
lemma Progress.lastread_active (h : Progress n r x q) (hring : Ring n r q) (hn : 2 ≤ n) :
    (q.tds q.lastread).Active ↔ x = r := by
  rw [hring.lastread, h.active r (Nat.le_succ r) (Uhci.le_last hn)]
  exact ⟨fun hle => le_antisymm hle h.le, fun heq => heq.le⟩

/-- What has been executed is not the descriptor that a poll requeues. -/
lemma Progress.lt_of_not_overruns (h : Progress n r x q) (hring : Ring n r q) (hn : 2 ≤ n)
    (hinactive : ¬(q.tds q.lastread).Active) (hover : ¬q.Overruns) : x ≤ r + n - 1 := by
  have hle := h.le_last
  cases r with
  | succ r =>
    rw [last_succ] at hle
    omega
  | zero =>
    rw [last_zero] at hle
    by_contra hlt
    refine hover ⟨hinactive, ?_, ?_⟩
    · rw [hring.lastTd, hring.previous_eq hn, last_zero, Nat.zero_add]
    · rw [hring.previous_eq hn, h.active (0 + n - 1) (by omega) (by rw [last_zero]; omega)]
      exact hlt

lemma Progress.advanced (h : Progress n r x q) (hring : Ring n r q) (hn : 2 ≤ n)
    (hinactive : ¬(q.tds q.lastread).Active) (hover : ¬q.Overruns) :
    Progress n (r + 1) x q.advanced := by
  have hprevious := hring.previous_eq hn
  have hlt := h.lt_of_not_overruns hring hn hinactive hover
  have hne : x ≠ r := fun heq => hinactive ((h.lastread_active hring hn).mpr heq)
  obtain ⟨hlink, -⟩ := requeue_frame q q.previous
  have hle := h.le
  refine ⟨by omega, by rw [last_succ]; omega, fun m hm hm' => ?_, ?_⟩
  · rw [last_succ] at hm'
    change ((q.requeue q.previous).tds (m % n)).Active ↔ _
    by_cases heq : m = r + n - 1
    · rw [heq, ← hprevious]
      exact iff_of_true requeue_active hlt
    · have hmod : m % n ≠ q.previous := by
        rw [hprevious]
        intro hmod
        exact heq (eq_of_mod_eq (a := r) (by omega) (by omega) (by omega) (by omega) hmod)
      rw [active_iff, requeue_ctrlsts hmod, ← active_iff]
      refine h.active m (by omega) ?_
      rcases last_cases (n := n) (r := r) with hcase | hcase <;> omega
  · change (q.requeue q.previous).elementlinkptr = none ∨
      (_ ∧ (q.requeue q.previous).elementlinkptr = _) ∨
      (_ ∧ (q.requeue q.previous).elementlinkptr = _)
    rw [hlink]
    refine h.position.imp_right (Or.imp_left (And.imp_left fun _ => ?_))
    rw [last_succ]
    exact hlt

/-- The next descriptor to be executed is the one that a completion is for. -/
lemma Progress.complete_index (h : Progress n r x q) (hi : q.elementlinkptr = some i)
    (hactive : (q.tds i).Active) : x ≤ last n r ∧ i = x % n := by
  rcases h.position with hnone | ⟨hle, hsome⟩ | ⟨hpos, hsome⟩
  · rw [hnone] at hi
    cases hi
  · rw [hsome] at hi
    exact ⟨hle, (Option.some.inj hi).symm⟩
  · rw [hsome] at hi
    obtain rfl := Option.some.inj hi
    have := (h.active (x - 1) (by have := h.le; omega) (by have := h.le_last; omega)).mp hactive
    omega

lemma Progress.complete (h : Progress n r x q) (hring : Ring n r q) (hn : 2 ≤ n) {ctrlsts : ℕ}
    (packet : P) (stays : Bool) (hctrlsts : ctrlsts &&& tdStatusActive = 0) (hx : x ≤ last n r) :
    Progress n r (x + 1) (q.complete (x % n) ctrlsts packet stays) := by
  have hle := h.le
  refine ⟨by omega, by omega, fun m hm hm' => ?_, ?_⟩
  · by_cases heq : m = x
    · rw [heq, complete_self]
      exact iff_of_false (not_not.mpr hctrlsts) (by omega)
    · have hne : m % n ≠ x % n := fun hmod =>
        heq (eq_of_mod_eq_of_le_last hn hm hm' (by omega) hx hmod)
      rw [complete_of_ne hne, h.active m hm hm']
      omega
  · rw [IntrQ.complete]
    simp only
    split
    · rw [modifyTd_self]
      simp only
      rcases hx.lt_or_eq with hlt | rfl
      · rw [hring.next x hle hlt]
        exact .inr (.inl ⟨hlt, rfl⟩)
      · exact .inl hring.terminated
    · exact .inr (.inr ⟨Nat.succ_pos x, rfl⟩)

end IntrQ

end ApuBios.Uhci
