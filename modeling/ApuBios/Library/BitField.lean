import ApuBios.Library.Word

/-!
# Fields of 32-bit words

A field is a range of bits of a word. Setting one field leaves the bits outside of it, and so the
fields that are disjoint from it.
-/

structure BitField where
  start : ℕ
  len : ℕ
  deriving DecidableEq

namespace BitField

variable {f g : BitField} {w v i : ℕ}

/-- `((1 << len) - 1) << start` -/
def mask (f : BitField) : ℕ := ((1 <<< f.len) - 1) <<< f.start

def get (f : BitField) (w : ℕ) : ℕ := (w &&& f.mask) >>> f.start

def set (f : BitField) (w v : ℕ) : ℕ := (w &&& Word.not 32 f.mask) ||| ((v <<< f.start) &&& f.mask)

/-- The bits of the field. -/
def Has (f : BitField) (i : ℕ) : Prop := f.start ≤ i ∧ i < f.start + f.len

instance (f : BitField) (i : ℕ) : Decidable (f.Has i) := inferInstanceAs (Decidable (_ ∧ _))

def Apart (f g : BitField) : Prop := f.start + f.len ≤ g.start ∨ g.start + g.len ≤ f.start

instance (f g : BitField) : Decidable (f.Apart g) := inferInstanceAs (Decidable (_ ∨ _))

lemma testBit_mask : f.mask.testBit i = decide (f.Has i) := by
  rw [mask, Nat.one_shiftLeft, Nat.testBit_shiftLeft, Nat.testBit_two_pow_sub_one, ← Bool.decide_and]
  simp only [Has]
  congr 1
  apply propext
  omega

lemma mask_lt (hf : f.start + f.len ≤ 32) : f.mask < 2 ^ 32 := by
  refine Nat.lt_pow_two_of_testBit _ fun i hi => ?_
  rw [testBit_mask]
  exact decide_eq_false fun h => absurd h.2 (by omega)

lemma testBit_not_mask (hf : f.start + f.len ≤ 32) :
    (Word.not 32 f.mask).testBit i = (decide (i < 32) && !decide (f.Has i)) := by
  rw [Word.not, Nat.sub_sub, Nat.add_comm 1, Nat.testBit_two_pow_sub_succ (mask_lt hf), testBit_mask]

lemma testBit_get : (f.get w).testBit i = (decide (i < f.len) && w.testBit (f.start + i)) := by
  rw [get, Nat.testBit_shiftRight, Nat.testBit_and, testBit_mask, Bool.and_comm]
  congr 1
  simp [Has]

lemma testBit_set (hf : f.start + f.len ≤ 32) : (f.set w v).testBit i =
    if f.Has i then v.testBit (i - f.start) else decide (i < 32) && w.testBit i := by
  rw [set, Nat.testBit_or, Nat.testBit_and, Nat.testBit_and, testBit_not_mask hf, testBit_mask,
    Nat.testBit_shiftLeft]
  by_cases h : f.Has i
  · simp [h, h.1]
  · simp [h, Bool.and_comm]

lemma get_lt : f.get w < 2 ^ f.len := by
  refine Nat.lt_pow_two_of_testBit _ fun i hi => ?_
  rw [testBit_get, decide_eq_false (by omega), Bool.false_and]

lemma get_set_self (hf : f.start + f.len ≤ 32) : f.get (f.set w v) = v % 2 ^ f.len := by
  apply Nat.eq_of_testBit_eq
  intro i
  rw [testBit_get, testBit_set hf, Nat.testBit_mod_two_pow]
  by_cases h : i < f.len
  · rw [if_pos ⟨by omega, by omega⟩, Nat.add_sub_cancel_left]
  · rw [decide_eq_false h, Bool.false_and, Bool.false_and]

/-- A field does not change if one that is apart from it is set. -/
lemma get_set_of_apart (hf : f.start + f.len ≤ 32) (hg : g.start + g.len ≤ 32) (h : f.Apart g) :
    f.get (g.set w v) = f.get w := by
  apply Nat.eq_of_testBit_eq
  intro i
  rw [testBit_get, testBit_get, testBit_set hg]
  by_cases hi : i < f.len
  · have hnot : ¬g.Has (f.start + i) := by
      rcases h with h | h
      · exact fun hhas => absurd hhas.1 (by omega)
      · exact fun hhas => absurd hhas.2 (by omega)
    rw [if_neg hnot, decide_eq_true (by omega : f.start + i < 32), Bool.true_and]
  · rw [decide_eq_false hi, Bool.false_and, Bool.false_and]

end BitField
