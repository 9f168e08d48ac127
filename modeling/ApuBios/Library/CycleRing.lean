import Mathlib.Tactic

/-!
# Rings with a cycle bit

A producer and a consumer share a ring of slots. Neither reads the index of the other: the producer
marks what it stores with a bit that it toggles each time around, and the consumer takes an entry when
its bit is the one of the present lap. If the producer never stores over an entry that has not been
taken, the ring is a queue (`Queue`).
-/

namespace CycleRing

variable {α : Type*} {size i k n : ℕ}

/-! ### Laps -/

/-- The bit of the lap of a position: 1 in the first lap. -/
def lap (size n : ℕ) : ℕ := (n / size + 1) % 2

@[simp] lemma lap_zero : lap size 0 = 1 := by simp [lap]

lemma lap_lt : lap size n < 2 := Nat.mod_lt _ (by decide)

/-- The bit is another one when the same slot is used again. -/
lemma lap_add_size_ne (hsize : 0 < size) : lap size (n + size) ≠ lap size n := by
  rw [lap, lap, Nat.add_div_right _ hsize]
  omega

/-- The index goes back to 0 behind the last slot. -/
lemma succ_mod (hsize : 0 < size) :
    (n + 1) % size = if n % size + 1 = size then 0 else n % size + 1 := by
  have hlt := Nat.mod_lt n hsize
  rw [Nat.add_mod_eq_ite]
  rcases Nat.lt_or_ge 1 size with hone | hone
  · rw [Nat.mod_eq_of_lt hone]
    split_ifs <;> omega
  · obtain rfl : size = 1 := by omega
    simp [Nat.mod_one]

/-- The bit is toggled behind the last slot. -/
lemma lap_succ (hsize : 0 < size) :
    lap size (n + 1) = if n % size + 1 = size then lap size n ^^^ 1 else lap size n := by
  have hparity : ∀ q, (q + 1 + 1) % 2 = (q + 1) % 2 ^^^ 1 := by
    intro q
    rcases Nat.mod_two_eq_zero_or_one (q + 1) with hq | hq <;> rw [hq] <;> simp <;> omega
  rw [lap, lap]
  split_ifs with hlast
  · have hdvd : size ∣ n + 1 := by
      apply Nat.dvd_of_mod_eq_zero
      rw [succ_mod hsize, if_pos hlast]
    rw [Nat.succ_div_of_dvd hdvd, hparity]
  · have hdvd : ¬ size ∣ n + 1 := by
      intro hdvd
      have hzero := Nat.mod_eq_zero_of_dvd hdvd
      rw [succ_mod hsize, if_neg hlast] at hzero
      cases hzero
    rw [Nat.succ_div_of_not_dvd hdvd]

/-- Within one round no slot is met twice. -/
lemma eq_of_mod_eq (hn : n ≤ i ∧ i < n + size) (hk : n ≤ k ∧ k < n + size)
    (heq : i % size = k % size) : i = k := by
  wlog hle : i ≤ k generalizing i k
  · exact (this hk hn heq.symm (by omega)).symm
  have hdvd : size ∣ k - i := (Nat.modEq_iff_dvd' hle).1 heq
  have hzero := Nat.eq_zero_of_dvd_of_lt hdvd (by omega)
  omega

/-! ### The queue -/

variable (size) (bit : α → ℕ) (mark : α → ℕ → α)

/-- The slots hold the items from `taken` on, with the bits of their laps. What is in the other slots
is left from the lap before. -/
structure Queue (slots : ℕ → α) (items : List α) (taken : ℕ) : Prop where
  taken_le : taken ≤ items.length
  length_le : items.length ≤ taken + size
  pending : ∀ k (hk : k < items.length), taken ≤ k → slots (k % size) = mark items[k] (lap size k)
  free : ∀ k, items.length ≤ k → k < taken + size → bit (slots (k % size)) ≠ lap size k

variable {size bit mark} {slots : ℕ → α} {items : List α} {taken : ℕ} {a : α}

/-- A ring whose bits are clear is an empty queue. -/
lemma queue_nil (hclear : ∀ i < size, bit (slots i) = 0) : Queue size bit mark slots [] 0 := by
  refine ⟨le_rfl, Nat.zero_le _, fun k hk => absurd hk (Nat.not_lt_zero k), fun k _ hk => ?_⟩
  rw [Nat.zero_add] at hk
  rw [Nat.mod_eq_of_lt hk, hclear k hk, lap, Nat.div_eq_of_lt hk]
  decide

/-- The consumer sees whether there is an item to take. -/
lemma Queue.ready_iff (h : Queue size bit mark slots items taken)
    (hmark : ∀ a b, b < 2 → bit (mark a b) = b) (hsize : 0 < size) :
    bit (slots (taken % size)) = lap size taken ↔ taken < items.length := by
  constructor
  · intro hready
    apply Nat.lt_of_not_le
    intro hle
    exact h.free taken hle (Nat.lt_add_of_pos_right hsize) hready
  · intro hlt
    rw [h.pending taken hlt le_rfl, hmark _ _ lap_lt]

/-- The producer stores an item as long as there is a slot that has been taken. -/
lemma Queue.produce (h : Queue size bit mark slots items taken) (hroom : items.length < taken + size) :
    Queue size bit mark (Function.update slots (items.length % size) (mark a (lap size items.length)))
      (items ++ [a]) taken := by
  have hle := h.taken_le
  refine ⟨?_, ?_, fun k hk htaken => ?_, fun k hk hlt => ?_⟩
  · rw [List.length_append]
    exact Nat.le_add_right_of_le hle
  · rw [List.length_append]
    exact hroom
  · rw [List.length_append, List.length_singleton] at hk
    rcases Nat.lt_succ_iff_lt_or_eq.1 hk with hold | rfl
    · have hother : k % size ≠ items.length % size := by
        intro heq
        have hsame := eq_of_mod_eq (n := taken) ⟨htaken, by omega⟩ ⟨hle, hroom⟩ heq
        omega
      rw [Function.update_of_ne hother, List.getElem_append_left hold, h.pending k hold htaken]
    · rw [Function.update_self, List.getElem_concat_length rfl]
  · rw [List.length_append, List.length_singleton] at hk
    have hother : k % size ≠ items.length % size := by
      intro heq
      have hsame := eq_of_mod_eq (n := taken) ⟨by omega, hlt⟩ ⟨hle, hroom⟩ heq
      omega
    rw [Function.update_of_ne hother]
    exact h.free k (by omega) hlt

/-- The consumer takes an item. -/
lemma Queue.consume (h : Queue size bit mark slots items taken)
    (hmark : ∀ a b, b < 2 → bit (mark a b) = b) (hsize : 0 < size) (hlt : taken < items.length) :
    Queue size bit mark slots items (taken + 1) := by
  have hle := h.length_le
  refine ⟨hlt, by omega, fun k hk htaken => h.pending k hk (by omega), fun k hk hnext => ?_⟩
  rcases Nat.lt_or_ge k (taken + size) with hwithin | hbehind
  · exact h.free k hk hwithin
  · obtain rfl : k = taken + size := by omega
    rw [Nat.add_mod_right, h.pending taken hlt le_rfl, hmark _ _ lap_lt]
    exact (lap_add_size_ne hsize).symm

end CycleRing
