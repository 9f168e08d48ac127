import ApuBios.Library.Memory

/-!
# Values in lines

Values of a fixed number of bytes are written one after the other, and such lines at a fixed distance.
-/

namespace Mem

variable {m : Mem} {p size stride n k a : ℕ}

/-- Writes `n` values one after the other. -/
def writeCells (m : Mem) (p size : ℕ) (v : ℕ → ℕ) : (n : ℕ) → Mem
  | 0 => m
  | n + 1 => writeLE (writeCells m p size v n) (p + n * size) size (v n)

/-- Writes `k` lines of `n` values, of which the starts lie `stride` bytes apart. -/
def writeRows (m : Mem) (p size stride n : ℕ) (v : ℕ → ℕ → ℕ) : (k : ℕ) → Mem
  | 0 => m
  | k + 1 => writeCells (writeRows m p size stride n v k) (p + k * stride) size (v k) n

/-! ### One line -/

lemma writeCells_frame {v : ℕ → ℕ} (h : a < p ∨ p + n * size ≤ a) : writeCells m p size v n a = m a := by
  induction n with
  | zero => rfl
  | succ n ih =>
    rw [Nat.add_mul, Nat.one_mul] at h
    rw [writeCells, writeLE_frame (by omega), ih (by omega)]

lemma writeCells_read {v : ℕ → ℕ} {i j : ℕ} (hi : i < n) (hj : j < size) :
    writeCells m p size v n (p + i * size + j) = UInt8.ofNat (v i / 256 ^ j) := by
  induction n with
  | zero => exact absurd hi (Nat.not_lt_zero i)
  | succ n ih =>
    rw [writeCells]
    obtain hlt | rfl := Nat.lt_succ_iff_lt_or_eq.mp hi
    · have hle : (i + 1) * size ≤ n * size := Nat.mul_le_mul_right _ hlt
      rw [Nat.add_mul, Nat.one_mul] at hle
      rw [writeLE_frame (by omega), ih hlt]
    · rw [writeLE, if_pos ⟨by omega, by omega⟩, Nat.add_sub_cancel_left]

/-- The first value may be written on its own. -/
lemma writeCells_succ (v : ℕ → ℕ) : writeCells m p size v (n + 1) =
    writeCells (writeLE m p size (v 0)) (p + size) size (fun i => v (i + 1)) n := by
  induction n with
  | zero => rw [writeCells, writeCells, writeCells, Nat.zero_mul, Nat.add_zero]
  | succ n ih =>
    rw [writeCells, ih, writeCells, Nat.add_mul n 1, Nat.one_mul, Nat.add_comm (n * size), Nat.add_assoc]

/-! ### Lines -/

lemma writeRows_frame {v : ℕ → ℕ → ℕ}
    (h : ∀ y < k, a < p + y * stride ∨ p + y * stride + n * size ≤ a) :
    writeRows m p size stride n v k a = m a := by
  induction k with
  | zero => rfl
  | succ k ih =>
    rw [writeRows, writeCells_frame (h k (Nat.lt_succ_self k)), ih fun y hy => h y (Nat.lt_succ_of_lt hy)]

/-- No line overwrites another one. -/
lemma writeRows_read {v : ℕ → ℕ → ℕ} {y i j : ℕ} (hstride : n * size ≤ stride) (hy : y < k) (hi : i < n)
    (hj : j < size) :
    writeRows m p size stride n v k (p + y * stride + i * size + j) = UInt8.ofNat (v y i / 256 ^ j) := by
  have hinside : i * size + j < n * size := by
    have : (i + 1) * size ≤ n * size := Nat.mul_le_mul_right _ hi
    rw [Nat.add_mul, Nat.one_mul] at this
    omega
  induction k with
  | zero => exact absurd hy (Nat.not_lt_zero y)
  | succ k ih =>
    rw [writeRows]
    obtain hlt | rfl := Nat.lt_succ_iff_lt_or_eq.mp hy
    · have hle : (y + 1) * stride ≤ k * stride := Nat.mul_le_mul_right _ hlt
      rw [Nat.add_mul, Nat.one_mul] at hle
      rw [writeCells_frame (by omega), ih hlt]
    · exact writeCells_read hi hj

/-- The first line may be written on its own. -/
lemma writeRows_succ (v : ℕ → ℕ → ℕ) : writeRows m p size stride n v (k + 1) =
    writeRows (writeCells m p size (v 0) n) (p + stride) size stride n (fun y => v (y + 1)) k := by
  induction k with
  | zero => rw [writeRows, writeRows, writeRows, Nat.zero_mul, Nat.add_zero]
  | succ k ih =>
    rw [writeRows, ih, writeRows, Nat.add_mul k 1, Nat.one_mul, Nat.add_comm (k * stride), Nat.add_assoc]

end Mem
