import Mathlib.Tactic

/-!
# Byte-addressed memory

Memory maps addresses to bytes. Multi-byte values are stored in little-endian order. For every
operation a frame lemma says which bytes stay as they are.
-/

/-- Byte-addressed memory. -/
abbrev Mem := ℕ → UInt8

namespace Mem

variable {m m' : Mem} {p q n k v : ℕ}

/-- The little-endian value of `n` bytes at `p`. -/
def readLE (m : Mem) (p : ℕ) : ℕ → ℕ
  | 0 => 0
  | n + 1 => (m p).toNat + 256 * readLE m (p + 1) n

/-- Stores the low `n` bytes of `v` at `p`. -/
def writeLE (m : Mem) (p n v : ℕ) : Mem :=
  fun a => if p ≤ a ∧ a < p + n then UInt8.ofNat (v / 256 ^ (a - p)) else m a

/-- Fills `n` bytes at `p`. -/
def memset (m : Mem) (p : ℕ) (c : UInt8) (n : ℕ) : Mem :=
  fun a => if p ≤ a ∧ a < p + n then c else m a

/-- Copies `n` bytes in ascending order. -/
def memcpy (m : Mem) (dst src : ℕ) : ℕ → Mem
  | 0 => m
  | n + 1 => memcpy (Function.update m dst (m src)) (dst + 1) (src + 1) n

/-- Copies `n` bytes as they are before the first one is written. -/
def memmove (m : Mem) (dst src n : ℕ) : Mem :=
  fun a => if dst ≤ a ∧ a < dst + n then m (src + (a - dst)) else m a

/-- Copies `n` bytes from `src` of another memory. -/
def copyFrom (m : Mem) (dst : ℕ) (other : Mem) (src n : ℕ) : Mem :=
  fun a => if dst ≤ a ∧ a < dst + n then other (src + (a - dst)) else m a

/-- Stores bytes one after the other. -/
def writeBytes (m : Mem) (p : ℕ) (bytes : List UInt8) : Mem :=
  fun a => if p ≤ a then (bytes[a - p]?).getD (m a) else m a

/-! ### Reading -/

lemma readLE_lt : readLE m p n < 256 ^ n := by
  induction n generalizing p with
  | zero => simp [readLE]
  | succ n ih =>
    have hbyte := (m p).toNat_lt
    have hrest := ih (p := p + 1)
    rw [readLE, pow_succ]
    omega

/-- Reading depends on the bytes read only. -/
lemma readLE_congr (h : ∀ a, p ≤ a → a < p + n → m a = m' a) :
    readLE m p n = readLE m' p n := by
  induction n generalizing p with
  | zero => rfl
  | succ n ih =>
    rw [readLE, readLE, h p le_rfl (by omega), ih fun a hle hlt => h a (by omega) (by omega)]

/-- What is read does not depend on where it lies. -/
lemma readLE_shift (h : ∀ i < n, m (p + i) = m' (q + i)) : readLE m p n = readLE m' q n := by
  induction n generalizing p q with
  | zero => rfl
  | succ n ih =>
    have hrest : readLE m (p + 1) n = readLE m' (q + 1) n := ih fun i hi => by
      have := h (i + 1) (by omega)
      rwa [Nat.add_comm i 1, ← Nat.add_assoc, ← Nat.add_assoc] at this
    rw [readLE, readLE, hrest]
    exact congrArg (fun b : UInt8 => b.toNat + _) (h 0 (Nat.succ_pos n))

/-! ### Writing -/

lemma writeLE_frame {a : ℕ} (h : a < p ∨ p + n ≤ a) : writeLE m p n v a = m a :=
  if_neg (by omega)

/-- What is stored does not depend on where it is stored. -/
lemma writeLE_shift {i : ℕ} (h : m (p + i) = m' (q + i)) :
    writeLE m (p + k) n v (p + i) = writeLE m' (q + k) n v (q + i) := by
  unfold writeLE
  by_cases hi : k ≤ i ∧ i < k + n
  · rw [if_pos (by omega), if_pos (by omega), Nat.add_sub_add_left, Nat.add_sub_add_left]
  · rw [if_neg (by omega), if_neg (by omega), h]

lemma readLE_writeLE_disjoint (h : q + k ≤ p ∨ p + n ≤ q) :
    readLE (writeLE m p n v) q k = readLE m q k :=
  readLE_congr fun _ _ _ => writeLE_frame (by omega)

/-- After its first byte, a stored value continues as the rest of the value. -/
private lemma readLE_writeLE_succ :
    readLE (writeLE m p (n + 1) v) (p + 1) n = readLE (writeLE m (p + 1) n (v / 256)) (p + 1) n := by
  refine readLE_congr fun a hle hlt => ?_
  rw [writeLE, writeLE, if_pos ⟨by omega, by omega⟩, if_pos ⟨hle, hlt⟩,
    show a - p = (a - (p + 1)) + 1 by omega, pow_succ', Nat.div_div_eq_div_mul]

lemma readLE_writeLE_same : readLE (writeLE m p n v) p n = v % 256 ^ n := by
  induction n generalizing p v with
  | zero => simp [readLE, Nat.mod_one]
  | succ n ih =>
    have hfirst : (writeLE m p (n + 1) v p).toNat = v % 256 := by
      simp [writeLE]
    rw [readLE, readLE_writeLE_succ, ih, hfirst, pow_succ', Nat.mod_mul]

lemma readLE_writeLE (h : v < 256 ^ n) : readLE (writeLE m p n v) p n = v := by
  rw [readLE_writeLE_same, Nat.mod_eq_of_lt h]

/-- The last byte may be stored on its own. -/
lemma writeLE_succ : writeLE m p (n + 1) v = writeLE (writeLE m p n v) (p + n) 1 (v / 256 ^ n) := by
  funext a
  simp only [writeLE]
  by_cases hlast : p + n ≤ a ∧ a < p + n + 1
  · obtain rfl : a = p + n := by omega
    rw [if_pos (by omega), if_pos hlast, Nat.sub_self, pow_zero, Nat.div_one, Nat.add_sub_cancel_left]
  · rw [if_neg hlast]
    by_cases ha : p ≤ a ∧ a < p + n
    · rw [if_pos (by omega), if_pos ha]
    · rw [if_neg (by omega), if_neg ha]

/-- Only the low byte of a value is stored in a byte. -/
lemma writeLE_byte : writeLE m p 1 (v &&& 0xFF) = writeLE m p 1 v := by
  funext a
  simp only [writeLE]
  by_cases ha : p ≤ a ∧ a < p + 1
  · obtain rfl : a = p := by omega
    rw [if_pos ha, if_pos ha, Nat.sub_self, pow_zero, Nat.div_one, Nat.div_one, ← UInt8.toNat_inj,
      UInt8.toNat_ofNat', UInt8.toNat_ofNat', Nat.and_two_pow_sub_one_eq_mod v 8, Nat.mod_mod]
  · rw [if_neg ha, if_neg ha]

/-! ### Filling and copying -/

lemma memset_frame {a : ℕ} {c : UInt8} (h : a < p ∨ p + n ≤ a) : memset m p c n a = m a :=
  if_neg (by omega)

lemma readLE_memset_zero (hp : p ≤ q) (hq : q + k ≤ p + n) : readLE (memset m p 0 n) q k = 0 := by
  induction k generalizing q with
  | zero => rfl
  | succ k ih =>
    rw [readLE, ih (by omega) (by omega), memset, if_pos ⟨hp, by omega⟩]
    rfl

lemma memcpy_frame {a : ℕ} (h : a < p ∨ p + n ≤ a) : memcpy m p q n a = m a := by
  induction n generalizing m p q with
  | zero => rfl
  | succ n ih =>
    rw [memcpy, ih (by omega), Function.update_of_ne (by omega)]

/-- Copying goes on where it stopped. -/
lemma memcpy_add : memcpy m p q (n + k) = memcpy (memcpy m p q n) (p + n) (q + n) k := by
  induction n generalizing m p q with
  | zero => rw [Nat.zero_add, memcpy, Nat.add_zero, Nat.add_zero]
  | succ n ih =>
    rw [Nat.add_right_comm, memcpy, ih, memcpy]
    congr 1 <;> omega

/-- All bytes are copied if none is overwritten before it is read. -/
lemma memcpy_read_of_le {i : ℕ} (h : p ≤ q ∨ q + n ≤ p) (hi : i < n) :
    memcpy m p q n (p + i) = m (q + i) := by
  induction n generalizing m p q i with
  | zero => exact absurd hi (Nat.not_lt_zero _)
  | succ n ih =>
    rw [memcpy]
    cases i with
    | zero => rw [memcpy_frame (.inl (by omega)), Nat.add_zero, Nat.add_zero, Function.update_self]
    | succ i =>
      have hstep := ih (m := Function.update m p (m q)) (p := p + 1) (q := q + 1) (i := i)
        (by omega) (by omega)
      rw [Nat.add_right_comm, Nat.add_assoc] at hstep
      rw [hstep, Function.update_of_ne (by omega), Nat.add_assoc, Nat.add_comm 1 i]

/-- Between regions that do not overlap all bytes are copied. -/
lemma memcpy_read {i : ℕ} (h : p + n ≤ q ∨ q + n ≤ p) (hi : i < n) :
    memcpy m p q n (p + i) = m (q + i) :=
  memcpy_read_of_le (h.imp_left fun h => by omega) hi

lemma memmove_frame {a : ℕ} (h : a < p ∨ p + n ≤ a) : memmove m p q n a = m a :=
  if_neg (by omega)

@[simp] lemma memmove_zero : memmove m p q 0 = m := by
  funext a
  exact memmove_frame (by omega)

lemma memmove_read {i : ℕ} (hi : i < n) : memmove m p q n (p + i) = m (q + i) := by
  rw [memmove, if_pos ⟨by omega, by omega⟩, Nat.add_sub_cancel_left]

lemma readLE_memmove_disjoint (h : k + v ≤ p ∨ p + n ≤ k) :
    readLE (memmove m p q n) k v = readLE m k v :=
  readLE_congr fun _ _ _ => memmove_frame (by omega)

/-- Between regions that do not overlap the first byte may be copied on its own. -/
lemma memmove_succ (h : q + (n + 1) ≤ p ∨ p + (n + 1) ≤ q) :
    memmove (Function.update m p (m q)) (p + 1) (q + 1) n = memmove m p q (n + 1) := by
  funext a
  by_cases ha : p ≤ a ∧ a < p + (n + 1)
  · obtain ⟨i, rfl⟩ : ∃ i, a = p + i := ⟨a - p, by omega⟩
    rw [memmove_read (show i < n + 1 by omega)]
    cases i with
    | zero => rw [memmove_frame (by omega), Nat.add_zero, Nat.add_zero, Function.update_self]
    | succ i =>
      rw [show p + (i + 1) = p + 1 + i by omega, memmove_read (show i < n by omega),
        Function.update_of_ne (by omega), show q + 1 + i = q + (i + 1) by omega]
  · rw [memmove_frame (show a < p ∨ p + (n + 1) ≤ a by omega),
      memmove_frame (show a < p + 1 ∨ p + 1 + n ≤ a by omega), Function.update_of_ne (by omega)]

@[simp] lemma writeBytes_nil : writeBytes m p [] = m := by
  funext a
  rw [writeBytes, List.getElem?_nil, Option.getD_none, ite_self]

lemma writeBytes_frame {a : ℕ} {bytes : List UInt8} (h : a < p ∨ p + bytes.length ≤ a) :
    writeBytes m p bytes a = m a := by
  unfold writeBytes
  split_ifs with hp
  · rw [List.getElem?_eq_none (by omega), Option.getD_none]
  · rfl

lemma writeBytes_read {i : ℕ} {bytes : List UInt8} (hi : i < bytes.length) :
    writeBytes m p bytes (p + i) = bytes[i] := by
  rw [writeBytes, if_pos (Nat.le_add_right p i), Nat.add_sub_cancel_left,
    List.getElem?_eq_getElem hi, Option.getD_some]

lemma readLE_writeBytes_disjoint {bytes : List UInt8} (h : q + k ≤ p ∨ p + bytes.length ≤ q) :
    readLE (writeBytes m p bytes) q k = readLE m q k :=
  readLE_congr fun _ _ _ => writeBytes_frame (by omega)

/-! ### Copying from another memory -/

lemma copyFrom_zero {other : Mem} : copyFrom m p other q 0 = m := by
  funext a
  exact if_neg (by omega)

/-- What is copied in two parts may be copied at once. -/
lemma copyFrom_add {other : Mem} :
    copyFrom (copyFrom m p other q n) (p + n) other (q + n) k = copyFrom m p other q (n + k) := by
  funext a
  simp only [copyFrom]
  by_cases hsecond : p + n ≤ a ∧ a < p + n + k
  · rw [if_pos hsecond, if_pos (by omega)]
    congr 1
    omega
  · rw [if_neg hsecond]
    by_cases hfirst : p ≤ a ∧ a < p + n
    · rw [if_pos hfirst, if_pos (by omega)]
    · rw [if_neg hfirst, if_neg (by omega)]

/-- What lies in between does not matter. -/
lemma copyFrom_trans {other third : Mem} {r : ℕ}
    (h : ∀ i < n, other (q + i) = third (r + i)) : copyFrom m p other q n = copyFrom m p third r n := by
  funext a
  simp only [copyFrom]
  split
  · exact h (a - p) (by omega)
  · rfl

end Mem
