import Mathlib.Data.Nat.Bitwise
import Mathlib.Tactic

/-!
# Unsigned machine words as naturals

A `w`-bit unsigned value is a natural number below `2 ^ w`. The operations below are the
wrapping operations of C on such values, and the lemmas give the arithmetic meaning of the
usual mask idioms for aligning a value to a power of two.
-/

namespace Word

variable {w k a b x y : ℕ}

/-- Wrapping addition. -/
def add (w a b : ℕ) : ℕ := (a + b) % 2 ^ w

/-- Wrapping subtraction. -/
def sub (w a b : ℕ) : ℕ := (a + (2 ^ w - b % 2 ^ w)) % 2 ^ w

/-- Bitwise complement. -/
def not (w a : ℕ) : ℕ := 2 ^ w - 1 - a

/-- `x & ~(a - 1)`. -/
def alignDown (w x a : ℕ) : ℕ := x &&& not w (a - 1)

/-- `(x + (a - 1)) & ~(a - 1)`. -/
def alignUp (w x a : ℕ) : ℕ := alignDown w (add w x (a - 1)) a

/-- Conversion of any integer to a `w`-bit unsigned value. -/
def ofInt (w : ℕ) (i : ℤ) : ℕ := (i % (2 ^ w : ℕ)).toNat

/-- Conversion of any integer to a `w`-bit signed value. -/
def toInt (w : ℕ) (i : ℤ) : ℤ := i.bmod (2 ^ w)

/-! ### Conversions -/

lemma ofInt_eq (h : a < 2 ^ w) : ofInt w a = a := by
  rw [ofInt, ← Int.natCast_emod, Int.toNat_natCast, Nat.mod_eq_of_lt h]

lemma ofInt_toInt (i : ℤ) : ofInt w (toInt w i) = ofInt w i := by
  rw [ofInt, ofInt, toInt, Int.bmod_emod]

lemma ofInt_lt {i : ℤ} : ofInt w i < 2 ^ w := by
  have hpos : (0 : ℤ) < (2 ^ w : ℕ) := by positivity
  have := Int.emod_lt_of_pos i hpos
  have := Int.emod_nonneg i hpos.ne'
  rw [ofInt]
  omega

/-- A value that fits into the lower half is not changed by conversion to a signed one. -/
lemma toInt_eq (h : 2 * a < 2 ^ w) : toInt w a = a := by
  refine Int.bmod_eq_of_le ?_ ?_ <;> omega

/-- The upper half becomes negative. -/
lemma toInt_eq_sub (h : 2 ^ w ≤ 2 * a) (ha : a < 2 ^ w) : toInt w a = (a : ℤ) - (2 ^ w : ℕ) := by
  rw [toInt, ← Int.sub_bmod_right]
  refine Int.bmod_eq_of_le ?_ ?_ <;> omega

lemma toInt_inj (ha : a < 2 ^ w) (hb : b < 2 ^ w) : toInt w a = toInt w b ↔ a = b := by
  refine ⟨fun h => ?_, fun h => by rw [h]⟩
  have h' := congrArg (ofInt w) h
  rwa [ofInt_toInt, ofInt_toInt, ofInt_eq ha, ofInt_eq hb] at h'

/-- A signed value is read back as it was stored. -/
lemma toInt_ofInt {i : ℤ} (hle : -(2 ^ w : ℕ) ≤ 2 * i) (hlt : 2 * i < (2 ^ w : ℕ)) :
    toInt w (ofInt w i) = i := by
  have hpos : (0 : ℤ) < (2 ^ w : ℕ) := by positivity
  rw [ofInt, Int.toNat_of_nonneg (Int.emod_nonneg i hpos.ne'), toInt, Int.emod_bmod]
  refine Int.bmod_eq_of_le ?_ ?_ <;> omega

/-! ### Addition and subtraction -/

lemma add_lt : add w a b < 2 ^ w := Nat.mod_lt _ (by positivity)

lemma sub_lt : sub w a b < 2 ^ w := Nat.mod_lt _ (by positivity)

lemma add_eq (h : a + b < 2 ^ w) : add w a b = a + b := Nat.mod_eq_of_lt h

lemma add_eq_wrap (h : 2 ^ w ≤ a + b) (h' : a + b < 2 ^ w + 2 ^ w) :
    add w a b = a + b - 2 ^ w := by
  rw [add, Nat.mod_eq_sub_mod h, Nat.mod_eq_of_lt (by omega)]

lemma sub_eq (h : b ≤ a) (ha : a < 2 ^ w) : sub w a b = a - b := by
  rw [sub, Nat.mod_eq_of_lt (by omega : b < 2 ^ w),
    show a + (2 ^ w - b) = (a - b) + 2 ^ w by omega, Nat.add_mod_right,
    Nat.mod_eq_of_lt (by omega)]

/-- The last of `b` addresses from `a`, also at the top of the word. -/
lemma sub_add_one (h : 0 < a + b) (hle : a + b ≤ 2 ^ w) : sub w (add w a b) 1 = a + b - 1 := by
  rcases hle.lt_or_eq with hlt | heq
  · rw [add_eq hlt, sub_eq h hlt]
  · rw [add, heq, Nat.mod_self, sub]
    rcases Nat.eq_zero_or_pos w with rfl | hw
    · simp
    · have : 2 ≤ 2 ^ w := Nat.le_self_pow hw.ne' 2
      rw [Nat.mod_eq_of_lt (show 1 < 2 ^ w by omega), Nat.zero_add, Nat.mod_eq_of_lt (by omega)]

lemma sub_eq_wrap (h : a < b) (hb : b < 2 ^ w) : sub w a b = a + 2 ^ w - b := by
  rw [sub, Nat.mod_eq_of_lt hb, Nat.mod_eq_of_lt (by omega)]
  omega

/-! ### Alignment -/

lemma testBit_not_mask (hk : k ≤ w) (i : ℕ) :
    (not w (2 ^ k - 1)).testBit i = (decide (i < w) && decide (k ≤ i)) := by
  have hpow : 2 ^ k ≤ 2 ^ w := Nat.pow_le_pow_right (by norm_num) hk
  have hpos : 0 < 2 ^ k := by positivity
  rw [not, show 2 ^ w - 1 - (2 ^ k - 1) = 2 ^ w - (2 ^ k - 1 + 1) by omega,
    Nat.testBit_two_pow_sub_succ (by omega), Nat.testBit_two_pow_sub_one]
  by_cases h : k ≤ i
  · simp [h, Nat.not_lt.mpr h]
  · simp [h, Nat.not_le.mp h]

/-- Clearing the low `k` bits rounds down to a multiple of `2 ^ k`. -/
lemma alignDown_eq (hk : k ≤ w) (hx : x < 2 ^ w) :
    alignDown w x (2 ^ k) = x / 2 ^ k * 2 ^ k := by
  apply Nat.eq_of_testBit_eq
  intro i
  rw [alignDown, Nat.testBit_and, testBit_not_mask hk, Nat.testBit_mul_two_pow,
    Nat.testBit_div_two_pow]
  by_cases hik : k ≤ i
  · simp only [hik, decide_true, Bool.and_true, Bool.true_and]
    rw [show i - k + k = i by omega]
    by_cases hiw : i < w
    · simp [hiw]
    · have : x < 2 ^ i := lt_of_lt_of_le hx (Nat.pow_le_pow_right (by norm_num) (by omega))
      simp [Nat.testBit_lt_two_pow this]
  · simp [hik]

lemma alignDown_le (hk : k ≤ w) (hx : x < 2 ^ w) : alignDown w x (2 ^ k) ≤ x := by
  rw [alignDown_eq hk hx]
  exact Nat.div_mul_le_self x _

lemma alignDown_mod (hk : k ≤ w) (hx : x < 2 ^ w) : alignDown w x (2 ^ k) % 2 ^ k = 0 := by
  rw [alignDown_eq hk hx, Nat.mul_mod_left]

lemma lt_alignDown_add (hk : k ≤ w) (hx : x < 2 ^ w) : x < alignDown w x (2 ^ k) + 2 ^ k := by
  rw [alignDown_eq hk hx]
  have := Nat.div_add_mod x (2 ^ k)
  have := Nat.mod_lt x (show 0 < 2 ^ k by positivity)
  rw [Nat.mul_comm (x / 2 ^ k)]
  omega

/-- The least multiple of `2 ^ k` that is not below `x`. -/
def roundUp (x k : ℕ) : ℕ := (x + (2 ^ k - 1)) / 2 ^ k * 2 ^ k

lemma le_roundUp : x ≤ roundUp x k := by
  have hpos : 0 < 2 ^ k := by positivity
  have := Nat.div_add_mod (x + (2 ^ k - 1)) (2 ^ k)
  have := Nat.mod_lt (x + (2 ^ k - 1)) hpos
  rw [roundUp, Nat.mul_comm]
  omega

lemma roundUp_lt : roundUp x k < x + 2 ^ k := by
  have hpos : 0 < 2 ^ k := by positivity
  have := Nat.div_mul_le_self (x + (2 ^ k - 1)) (2 ^ k)
  rw [roundUp]
  omega

@[simp] lemma dvd_roundUp : 2 ^ k ∣ roundUp x k := Dvd.intro_left _ rfl

/-- `roundUp` is below every multiple that is not below its argument. -/
lemma roundUp_le (hxy : x ≤ y) (hy : 2 ^ k ∣ y) : roundUp x k ≤ y := by
  have hpos : 0 < 2 ^ k := by positivity
  obtain ⟨c, rfl⟩ := hy
  have h : (x + (2 ^ k - 1)) / 2 ^ k ≤ c := by
    rw [← Nat.lt_succ_iff, Nat.div_lt_iff_lt_mul hpos, Nat.succ_mul, Nat.mul_comm c]
    omega
  calc roundUp x k ≤ c * 2 ^ k := Nat.mul_le_mul_right _ h
    _ = 2 ^ k * c := Nat.mul_comm _ _

lemma roundUp_of_dvd (h : 2 ^ k ∣ x) : roundUp x k = x :=
  le_antisymm (roundUp_le le_rfl h) le_roundUp

lemma roundUp_mono (h : x ≤ y) : roundUp x k ≤ roundUp y k :=
  roundUp_le (h.trans le_roundUp) dvd_roundUp

/-- Rounding commutes with a shift by a multiple of the alignment. -/
lemma roundUp_add (h : 2 ^ k ∣ b) : roundUp (b + x) k = b + roundUp x k := by
  apply le_antisymm
  · exact roundUp_le (Nat.add_le_add_left le_roundUp b) (Nat.dvd_add h dvd_roundUp)
  · have hb : b ≤ roundUp (b + x) k := (Nat.le_add_right b x).trans le_roundUp
    have hx : roundUp x k ≤ roundUp (b + x) k - b := by
      refine roundUp_le ?_ (Nat.dvd_sub dvd_roundUp h)
      have := le_roundUp (x := b + x) (k := k)
      omega
    omega

/-- The wrapping mask idiom computes `roundUp` when the result fits. -/
lemma alignUp_eq (hk : k ≤ w) (h : roundUp x k < 2 ^ w) :
    alignUp w x (2 ^ k) = roundUp x k := by
  have hpos : 0 < 2 ^ k := by positivity
  have hsum : x + (2 ^ k - 1) < 2 ^ w := by
    by_contra hge
    have : 2 ^ w ≤ roundUp x k := by
      obtain ⟨d, rfl⟩ := Nat.exists_eq_add_of_le hk
      have hd : 2 ^ d ≤ (x + (2 ^ k - 1)) / 2 ^ k := by
        rw [Nat.le_div_iff_mul_le hpos, ← Nat.pow_add, Nat.add_comm d]
        omega
      calc 2 ^ (k + d) = 2 ^ d * 2 ^ k := by rw [Nat.pow_add, Nat.mul_comm]
        _ ≤ roundUp x k := Nat.mul_le_mul_right _ hd
    omega
  rw [alignUp, add_eq hsum, alignDown_eq hk hsum, roundUp]

/-- At the top of the word the mask idiom wraps to zero. -/
lemma alignUp_eq_zero (hk : k ≤ w) (hx : x < 2 ^ w) (h : roundUp x k = 2 ^ w) :
    alignUp w x (2 ^ k) = 0 := by
  have hpos : 0 < 2 ^ k := by positivity
  have hle := Nat.div_mul_le_self (x + (2 ^ k - 1)) (2 ^ k)
  have hpow : 2 ^ k ≤ 2 ^ w := Nat.pow_le_pow_right (by norm_num) hk
  rw [roundUp] at h
  have hadd : add w x (2 ^ k - 1) = x + (2 ^ k - 1) - 2 ^ w := add_eq_wrap (by omega) (by omega)
  rw [alignUp, alignDown_eq hk add_lt, hadd, Nat.div_eq_of_lt (by omega), Nat.zero_mul]

/-! ### Masks -/

/-- Masking a value of which the low `w` bits are put together from a field `b`. -/
lemma and_mul_two_pow {c : ℕ} (hb : b < 2 ^ w) :
    (2 ^ w * a + b) &&& (2 ^ w * c) = 2 ^ w * (a &&& c) := by
  apply Nat.eq_of_testBit_eq
  intro i
  rw [Nat.testBit_and, Nat.testBit_two_pow_mul_add a hb, Nat.testBit_two_pow_mul,
    Nat.testBit_two_pow_mul, Nat.testBit_and]
  by_cases hi : i < w
  · simp [hi, Nat.not_le.mpr hi]
  · simp [hi, Nat.not_lt.mp hi]

/-- The complement of a low mask that is cut off at bit `n`. -/
lemma testBit_sub_two_pow_and {n : ℕ} (hk : k ≤ w) (i : ℕ) :
    ((2 ^ w - 2 ^ k) &&& (2 ^ n - 1)).testBit i =
      (decide (i < w) && decide (k ≤ i) && decide (i < n)) := by
  have hpow : 2 ^ k ≤ 2 ^ w := Nat.pow_le_pow_right (by norm_num) hk
  have hpos : 0 < 2 ^ k := by positivity
  rw [Nat.testBit_and, Nat.testBit_two_pow_sub_one,
    show 2 ^ w - 2 ^ k = not w (2 ^ k - 1) by rw [not]; omega, testBit_not_mask hk]

/-- Two values agree under a mask of the bits from `k` on if they are in the same block. -/
lemma and_eq_and_iff {n mask : ℕ} (hmask : ∀ i < n, mask.testBit i = decide (k ≤ i)) (hx : x < 2 ^ n)
    (hy : y < 2 ^ n) : x &&& mask = y &&& mask ↔ x / 2 ^ k = y / 2 ^ k := by
  constructor
  · intro h
    apply Nat.eq_of_testBit_eq
    intro i
    have hi := congrArg (fun v => v.testBit (i + k)) h
    simp only [Nat.testBit_and] at hi
    rw [Nat.testBit_div_two_pow, Nat.testBit_div_two_pow]
    by_cases hn : i + k < n
    · simpa only [hmask _ hn, Nat.le_add_left, decide_true, Bool.and_true] using hi
    · have hpow : 2 ^ n ≤ 2 ^ (i + k) := Nat.pow_le_pow_right (by norm_num) (by omega)
      rw [Nat.testBit_lt_two_pow (hx.trans_le hpow), Nat.testBit_lt_two_pow (hy.trans_le hpow)]
  · intro h
    apply Nat.eq_of_testBit_eq
    intro i
    have hi := congrArg (fun v => v.testBit (i - k)) h
    simp only [Nat.testBit_div_two_pow] at hi
    rw [Nat.testBit_and, Nat.testBit_and]
    by_cases hn : i < n
    · rw [hmask i hn]
      by_cases hk : k ≤ i
      · rw [show i - k + k = i by omega] at hi
        rw [hi]
      · simp [hk]
    · have hpow : 2 ^ n ≤ 2 ^ i := Nat.pow_le_pow_right (by norm_num) (by omega)
      rw [Nat.testBit_lt_two_pow (hx.trans_le hpow), Nat.testBit_lt_two_pow (hy.trans_le hpow)]

/-- The values of an aligned block. -/
lemma div_eq_div_iff_of_dvd (hb : 2 ^ k ∣ b) :
    x / 2 ^ k = b / 2 ^ k ↔ b ≤ x ∧ x < b + 2 ^ k := by
  obtain ⟨c, rfl⟩ := hb
  have hpos : 0 < 2 ^ k := by positivity
  rw [Nat.mul_div_cancel_left c hpos, Nat.div_eq_iff hpos]
  constructor
  · rintro ⟨h₁, h₂⟩
    rw [Nat.mul_comm] at h₁ h₂
    omega
  · rintro ⟨h₁, h₂⟩
    rw [Nat.mul_comm c]
    omega

end Word
