import ApuBios.Library.Lz77
import ApuBios.Lib.Lzma.Basic

/-!
# What an LZMA stream says

A stream is a list of tokens: single bytes, copies from a distance that is given, copies from one of
the last four distances, and an end marker. `expand` says what bytes they stand for and `Token.code`
what bits they are written in, before these are compressed.
-/

namespace ApuBios.Lzma

open Lz77

def kMatchMaxLen : ℕ :=
  kMatchMinLen + kLenNumLowSymbols + kLenNumMidSymbols + kLenNumHighSymbols - 1

inductive Token where
  | literal (b : UInt8)
  /-- One byte from the last distance. -/
  | shortRep
  /-- A copy from one of the last four distances. -/
  | rep (i : Fin 4) (len : ℕ)
  | matched (distance len : ℕ)
  /-- The end marker is a match with a length and a distance that does not exist. -/
  | marker (len : ℕ)
  deriving DecidableEq, Repr

/-- The bytes so far, and the last four distances. -/
structure Window where
  out : List UInt8 := []
  rep0 : ℕ := 1
  rep1 : ℕ := 1
  rep2 : ℕ := 1
  rep3 : ℕ := 1
  deriving DecidableEq, Repr

/-- The distance that is used is the last one then. -/
def Window.use (w : Window) : Fin 4 → Window
  | 0 => w
  | 1 => { w with rep0 := w.rep1, rep1 := w.rep0 }
  | 2 => { w with rep0 := w.rep2, rep1 := w.rep0, rep2 := w.rep1 }
  | 3 => { w with rep0 := w.rep3, rep1 := w.rep0, rep2 := w.rep1, rep3 := w.rep2 }

/-- Lengths are in range, and what is copied has been written. -/
def Token.Valid (w : Window) : Token → Prop
  | literal _ => True
  | shortRep => w.out ≠ []
  | rep i len => (w.use i).rep0 ≤ w.out.length ∧ kMatchMinLen ≤ len ∧ len ≤ kMatchMaxLen
  | matched distance len =>
    0 < distance ∧ distance ≤ w.out.length ∧ kMatchMinLen ≤ len ∧ len ≤ kMatchMaxLen
  | marker len => kMatchMinLen ≤ len ∧ len ≤ kMatchMaxLen

instance (w : Window) : (t : Token) → Decidable (t.Valid w)
  | .literal _ => inferInstanceAs (Decidable True)
  | .shortRep => inferInstanceAs (Decidable (_ ≠ _))
  | .rep _ _ => inferInstanceAs (Decidable (_ ∧ _ ∧ _))
  | .matched _ _ => inferInstanceAs (Decidable (_ ∧ _ ∧ _ ∧ _))
  | .marker _ => inferInstanceAs (Decidable (_ ∧ _))

/-- Writes a copy, as far as there is room for it. -/
def Window.copy (outSize len : ℕ) (w : Window) : Window :=
  { w with out := (Lz77.copy w.rep0 len w.out).take outSize }

def Window.step (outSize : ℕ) (w : Window) : Token → Window
  | .literal b => { w with out := w.out ++ [b] }
  | .shortRep => w.copy outSize 1
  | .rep i len => (w.use i).copy outSize len
  | .matched distance len =>
    { w with rep0 := distance, rep1 := w.rep0, rep2 := w.rep1, rep3 := w.rep2 }.copy outSize len
  | .marker _ => w

/-- What the tokens stand for. They go on until there are `outSize` bytes, or end with the marker. -/
def expand (outSize : ℕ) (w : Window) : List Token → Option (List UInt8)
  | [] => if w.out.length < outSize then none else some w.out
  | .marker len :: ts =>
    if w.out.length < outSize ∧ (Token.marker len).Valid w ∧ ts = [] then some w.out else none
  | t :: ts =>
    if w.out.length < outSize ∧ t.Valid w then expand outSize (w.step outSize t) ts else none

section

variable {outSize : ℕ} {w : Window} {ts : List Token}

/-- A token that is not the marker. -/
lemma expand_token {t : Token} (h : ∀ len, t ≠ .marker len) :
    expand outSize w (t :: ts) =
      if w.out.length < outSize ∧ t.Valid w then expand outSize (w.step outSize t) ts else none := by
  cases t with
  | marker len => exact absurd rfl (h len)
  | literal b => rfl
  | shortRep => rfl
  | rep i len => rfl
  | matched distance len => rfl

/-- No token follows when the output is full. -/
lemma expand_cons_full (h : ¬ w.out.length < outSize) (t : Token) : expand outSize w (t :: ts) = none := by
  by_cases hmarker : ∃ len, t = .marker len
  · obtain ⟨len, rfl⟩ := hmarker
    exact if_neg fun hc => h hc.1
  · rw [expand_token fun len hlen => hmarker ⟨len, hlen⟩]
    exact if_neg fun hc => h hc.1

end

/-! ### The bits of a token -/

/-- The low `n` bits of a number, beginning with the most significant one. -/
def bitsMsb : (n x : ℕ) → List Bool
  | 0, _ => []
  | n + 1, x => x.testBit n :: bitsMsb n x

/-- The low `n` bits of a number, beginning with the least significant one. -/
def bitsLsb : (n x : ℕ) → List Bool
  | 0, _ => []
  | n + 1, x => x.testBit 0 :: bitsLsb n (x / 2)

def lenCode (len : ℕ) : List Bool :=
  let len := len - kMatchMinLen
  if len < kLenNumLowSymbols then false :: bitsMsb kLenNumLowBits len
  else if len < kLenNumLowSymbols + kLenNumMidSymbols then
    true :: false :: bitsMsb kLenNumMidBits (len - kLenNumLowSymbols)
  else true :: true :: bitsMsb kLenNumHighBits (len - (kLenNumLowSymbols + kLenNumMidSymbols))

/-- The number of bits of a distance and the second of them, except for small distances. -/
def slotOf (d : ℕ) : ℕ :=
  if d < kStartPosModelIndex then d else 2 * d.log2 + d / 2 ^ (d.log2 - 1) % 2

/-- The bits of a distance after its slot. -/
def lowCode (d : ℕ) : List Bool :=
  let slot := slotOf d
  if slot < kStartPosModelIndex then []
  else
    let n := slot / 2 - 1
    if slot < kEndPosModelIndex then bitsLsb n d
    else bitsMsb (n - kNumAlignBits) (d / 2 ^ kNumAlignBits) ++ bitsLsb kNumAlignBits d

/-- The code of a distance, which begins at 0 here. -/
def distanceCode (d : ℕ) : List Bool := bitsMsb kNumPosSlotBits (slotOf d) ++ lowCode d

/-- Which of the last distances is used. -/
def repCode : Fin 4 → List Bool
  | 0 => [false, true]
  | 1 => [true, false]
  | 2 => [true, true, false]
  | 3 => [true, true, true]

def Token.code : Token → List Bool
  | literal b => false :: bitsMsb 8 b.toNat
  | shortRep => [true, true, false, false]
  | rep i len => true :: true :: (repCode i ++ lenCode len)
  | matched distance len => true :: false :: (lenCode len ++ distanceCode (distance - 1))
  | marker len => true :: false :: (lenCode len ++ distanceCode (2 ^ 32 - 1))

/-! ### Numbers and their bits -/

lemma bitsMsb_congr {n x y : ℕ} (h : x % 2 ^ n = y % 2 ^ n) : bitsMsb n x = bitsMsb n y := by
  induction n with
  | zero => rfl
  | succ n ih =>
    have hbit : x.testBit n = y.testBit n := by
      have := congrArg (fun z => z.testBit n) h
      simpa only [Nat.testBit_mod_two_pow, Nat.lt_succ_self, decide_true, Bool.true_and] using this
    have hrest : x % 2 ^ n = y % 2 ^ n := by
      rw [← Nat.mod_mod_of_dvd x (pow_dvd_pow 2 (Nat.le_succ n)), h,
        Nat.mod_mod_of_dvd y (pow_dvd_pow 2 (Nat.le_succ n))]
    rw [bitsMsb, bitsMsb, hbit, ih hrest]

lemma bitsLsb_congr {n x y : ℕ} (h : x % 2 ^ n = y % 2 ^ n) : bitsLsb n x = bitsLsb n y := by
  induction n generalizing x y with
  | zero => rfl
  | succ n ih =>
    rw [pow_succ', Nat.mod_mul, Nat.mod_mul] at h
    have hbit : x.testBit 0 = y.testBit 0 := by
      rw [Nat.testBit_zero, Nat.testBit_zero, show x % 2 = y % 2 by omega]
    have hrest : x / 2 % 2 ^ n = y / 2 % 2 ^ n := by omega
    rw [bitsLsb, bitsLsb, hbit, ih hrest]

/-- A number is found by its first bit and the others. -/
lemma bitsMsb_succ {n x : ℕ} (b : Bool) (hx : x < 2 ^ n) :
    bitsMsb (n + 1) (b.toNat * 2 ^ n + x) = b :: bitsMsb n x := by
  have hbit : (b.toNat * 2 ^ n + x).testBit n = b := by
    rw [Nat.testBit_eq_decide_div_mod_eq, Nat.mul_comm, Nat.mul_add_div (by positivity),
      Nat.div_eq_of_lt hx]
    cases b <;> rfl
  rw [bitsMsb, hbit]
  congr 1
  exact bitsMsb_congr (by rw [Nat.mul_add_mod_self_right])

lemma bitsLsb_succ {n x : ℕ} (b : Bool) : bitsLsb (n + 1) (2 * x + b.toNat) = b :: bitsLsb n x := by
  have hlt := b.toNat_lt
  have hbit : (2 * x + b.toNat).testBit 0 = b := by
    rw [Nat.testBit_zero, Nat.mul_add_mod]
    cases b <;> rfl
  rw [bitsLsb, hbit, show (2 * x + b.toNat) / 2 = x by omega]

/-- The slot of a distance, with its leading bits and the others. -/
lemma slotOf_eq {slot low : ℕ} (hslot : kStartPosModelIndex ≤ slot) (hlow : low < 2 ^ (slot / 2 - 1)) :
    slotOf ((2 + slot % 2) * 2 ^ (slot / 2 - 1) + low) = slot := by
  simp only [kStartPosModelIndex] at hslot
  obtain ⟨n, hn⟩ : ∃ n, slot / 2 = n + 1 := ⟨slot / 2 - 1, by omega⟩
  rw [hn, Nat.add_sub_cancel] at hlow ⊢
  set d := (2 + slot % 2) * 2 ^ n + low with hd
  have hpow : 2 ≤ 2 ^ n := Nat.le_self_pow (by omega) 2
  have hge : 2 * 2 ^ n ≤ (2 + slot % 2) * 2 ^ n := Nat.mul_le_mul_right _ (Nat.le_add_right 2 _)
  have hle : (2 + slot % 2) * 2 ^ n ≤ 3 * 2 ^ n := Nat.mul_le_mul_right _ (by omega)
  have hlog : d.log2 = n + 1 := by
    refine (Nat.log2_eq_iff (by omega)).2 ⟨?_, ?_⟩
    · rw [pow_succ']
      omega
    · rw [pow_succ', pow_succ']
      omega
  have hdiv : d / 2 ^ n = 2 + slot % 2 := by
    rw [hd, Nat.mul_comm, Nat.mul_add_div (by positivity), Nat.div_eq_of_lt hlow, Nat.add_zero]
  rw [slotOf, if_neg (by simp only [kStartPosModelIndex]; omega), hlog, Nat.add_sub_cancel, hdiv]
  omega

/-- A distance is its leading bits and the others. -/
lemma eq_of_slotOf {d : ℕ} (hd : kStartPosModelIndex ≤ d) :
    d = (2 + slotOf d % 2) * 2 ^ (slotOf d / 2 - 1) + d % 2 ^ (slotOf d / 2 - 1) := by
  simp only [kStartPosModelIndex] at hd
  obtain ⟨n, hn⟩ : ∃ n, d.log2 = n + 1 := by
    have := (Nat.le_log2 (show d ≠ 0 by omega) (k := 1)).2 (by omega)
    exact ⟨d.log2 - 1, by omega⟩
  obtain ⟨hlow, hhigh⟩ := (Nat.log2_eq_iff (by omega)).1 hn
  have hslot : slotOf d = 2 * (n + 1) + d / 2 ^ n % 2 := by
    rw [slotOf, if_neg (by simp only [kStartPosModelIndex]; omega), hn, Nat.add_sub_cancel]
  have hexp : slotOf d / 2 - 1 = n := by omega
  have hdiv : d / 2 ^ n = 2 + slotOf d % 2 := by
    rw [pow_succ'] at hlow
    rw [pow_succ', pow_succ'] at hhigh
    have h2 : 2 ≤ d / 2 ^ n := (Nat.le_div_iff_mul_le (by positivity)).2 hlow
    have h4 : d / 2 ^ n < 4 := (Nat.div_lt_iff_lt_mul (by positivity)).2 (by omega)
    omega
  rw [hexp, ← hdiv, Nat.mul_comm]
  exact (Nat.div_add_mod d (2 ^ n)).symm

lemma slotOf_ge {d : ℕ} (hd : kStartPosModelIndex ≤ d) : kStartPosModelIndex ≤ slotOf d := by
  simp only [kStartPosModelIndex] at hd
  have := (Nat.le_log2 (show d ≠ 0 by omega) (k := 2)).2 (by omega)
  rw [slotOf, if_neg (by simp only [kStartPosModelIndex]; omega)]
  simp only [kStartPosModelIndex]
  omega

lemma slotOf_lt {d : ℕ} (hd : d < 2 ^ 32) : slotOf d < 2 ^ kNumPosSlotBits := by
  rw [kNumPosSlotBits, slotOf]
  by_cases hsmall : d < kStartPosModelIndex
  · rw [if_pos hsmall]
    simp only [kStartPosModelIndex] at hsmall
    omega
  · rw [if_neg hsmall]
    simp only [kStartPosModelIndex] at hsmall
    have := (Nat.log2_lt (show d ≠ 0 by omega)).2 hd
    omega

end ApuBios.Lzma
