import ApuBios.Library.Aml
import Mathlib.Data.Nat.Digits.Lemmas

/-!
# Numbers as text

Model of `strtoull` in `libc/string.c` of libpayload with the base 0, and of the decimal conversion of
`print_number` in `libc/printf.c`. A string is the list of its characters before the terminator.
-/

namespace ApuBios.Options

/-! ### Reading -/

def isspace (c : BitVec 8) : Bool := c = 0x20 ∨ 0x09 ≤ c.toNat ∧ c.toNat ≤ 0x0d

def tolower (c : BitVec 8) : BitVec 8 := if 0x41 ≤ c.toNat ∧ c.toNat ≤ 0x5a then c + 0x20 else c

/-- `_valid` -/
def valid (ch : BitVec 8) (base : ℕ) : Bool :=
  let last := if base > 9 then 0x39 else 0x30 + (base - 1)
  0x30 ≤ ch.toNat ∧ ch.toNat ≤ last ∨
    base > 11 ∧ 0x61 ≤ (tolower ch).toNat ∧ (tolower ch).toNat ≤ 0x61 + (base - 11)

/-- `_offset` -/
def offset (ch : BitVec 8) : ℕ :=
  if 0x30 ≤ ch.toNat ∧ ch.toNat ≤ 0x39 then ch.toNat - 0x30 else 10 + (tolower ch).toNat - 0x61

/-- `ptr[0] == '0' && (ptr[1] == 'x' || ptr[1] == 'X')` -/
def hasHexPrefix (ptr : List (BitVec 8)) : Bool :=
  ptr.getD 0 0 = 0x30 ∧ (ptr.getD 1 0 = 0x78 ∨ ptr.getD 1 0 = 0x58)

/-- The base, and the rest behind what has determined it. -/
def determineBase (ptr : List (BitVec 8)) : ℕ × List (BitVec 8) :=
  if hasHexPrefix ptr then (16, ptr.drop 2)
  else if ptr.getD 0 0 = 0x30 then (8, ptr.drop 1)
  else (10, ptr)

def convert (base : ℕ) : (ptr : List (BitVec 8)) → (ret : ℕ) → ℕ
  | [], ret => ret
  | c :: ptr, ret =>
    if valid c base then convert base ptr ((ret * base + offset c) % 2 ^ 64) else ret

/-- The loop gives zero where the tests before it do: at the end, and at what is no digit. -/
def strtoull (ptr : List (BitVec 8)) : ℕ :=
  let (base, ptr) := determineBase (ptr.dropWhile isspace)
  convert base ptr 0

/-! ### Printing -/

/-- `digits_small` for the digits that are used -/
def digitChar (d : ℕ) : BitVec 8 := BitVec.ofNat 8 (0x30 + d)

/-- The loop puts the digits before those that are there. -/
def printLoop : (fuel num : ℕ) → (ptr : List (BitVec 8)) → List (BitVec 8)
  | 0, _, ptr => ptr
  | fuel + 1, num, ptr =>
    let ptr := digitChar (num % 10) :: ptr
    if num / 10 = 0 then ptr else printLoop fuel (num / 10) ptr

/-- The buffer has `PRINT_NUMBER_BUFFER_SIZE` characters, more than a number has. -/
def PRINT_NUMBER_BUFFER_SIZE : ℕ := 64 + 5

def printNumber (num : ℕ) : List (BitVec 8) :=
  if num = 0 then [digitChar 0] else printLoop (PRINT_NUMBER_BUFFER_SIZE - 1) num []

/-! ### What is to hold -/

/-- The number that digits are, if they are digits. -/
def numeral (base : ℕ) (ds : List (BitVec 8)) : Option ℕ :=
  if ds ≠ [] ∧ ∀ d ∈ ds, valid d base then some (ds.foldl (fun n d => n * base + offset d) 0) else none

/-- The number that a string is, if it is one: behind white space there are only digits, octal ones
after a zero and hexadecimal ones after `0x`. -/
def numberOf (s : List (BitVec 8)) : Option ℕ :=
  let s := s.dropWhile isspace
  if hasHexPrefix s then numeral 16 (s.drop 2)
  else if s.getD 0 0 = 0x30 then numeral 8 s
  else numeral 10 s

/-- The decimal digits of a number. -/
def decimal (n : ℕ) : List (BitVec 8) :=
  if n = 0 then [digitChar 0] else (Nat.digits 10 n).reverse.map digitChar

variable {s ds : List (BitVec 8)} {ds' : List ℕ} {n m base k : ℕ}

/-! ### What is read -/

/-- All digits are converted. -/
lemma convert_eq (h : ∀ d ∈ ds, valid d base) (m : ℕ) :
    convert base ds (m % 2 ^ 64) = ds.foldl (fun n d => n * base + offset d) m % 2 ^ 64 := by
  induction ds generalizing m with
  | nil => rfl
  | cons d ds ih =>
    have hd : valid d base = true := h d List.mem_cons_self
    have hmod : (m % 2 ^ 64 * base + offset d) % 2 ^ 64 = (m * base + offset d) % 2 ^ 64 := by
      rw [Nat.add_mod, Nat.mod_mul_mod, ← Nat.add_mod]
    rw [convert, if_pos hd, hmod, List.foldl_cons]
    exact ih (fun d' hd' => h d' (List.mem_cons_of_mem _ hd')) _

lemma convert_numeral (h : numeral base ds = some n) : convert base ds 0 = n % 2 ^ 64 := by
  unfold numeral at h
  split_ifs at h with hvalid
  rw [← Option.some.inj h]
  exact convert_eq hvalid.2 0

/-- A number is read, if it fits into 64 bits. -/
lemma strtoull_eq (h : numberOf s = some n) : strtoull s = n % 2 ^ 64 := by
  simp only [numberOf] at h
  simp only [strtoull, determineBase]
  split_ifs at h ⊢ with hhex hzero
  · exact convert_numeral h
  · -- the zero that stands for the base is a digit
    cases hs : s.dropWhile isspace with
    | nil =>
      rw [hs] at hzero
      exact absurd hzero (by decide)
    | cons d ds =>
      rw [hs] at h hzero
      obtain rfl : d = 0x30 := hzero
      have hconvert := convert_numeral h
      rw [convert, if_pos (by decide)] at hconvert
      exact hconvert
  · exact convert_numeral h

/-! ### What is printed -/

lemma printLoop_eq (hn : 0 < n) (hk : n < 10 ^ k) (ptr : List (BitVec 8)) :
    printLoop k n ptr = (Nat.digits 10 n).reverse.map digitChar ++ ptr := by
  induction k generalizing n ptr with
  | zero => omega
  | succ k ih =>
    rw [printLoop, Nat.digits_def' (by decide) hn, List.reverse_cons, List.map_append,
      List.append_assoc]
    split_ifs with hlast
    · rw [hlast, Nat.digits_zero]
      rfl
    · rw [pow_succ] at hk
      rw [ih (by omega) (Nat.div_lt_of_lt_mul (by omega))]
      rfl

lemma printNumber_eq (hn : n < 2 ^ 64) : printNumber n = decimal n := by
  rw [printNumber, decimal]
  split_ifs with hzero
  · rfl
  · have hlt : n < 10 ^ (PRINT_NUMBER_BUFFER_SIZE - 1) := hn.trans (by decide)
    rw [printLoop_eq (by omega) hlt, List.append_nil]

lemma digitChar_spec (h : k < 10) :
    valid (digitChar k) 10 = true ∧ offset (digitChar k) = k ∧ isspace (digitChar k) = false ∧
      (digitChar k = 0x30 ↔ k = 0) := by
  interval_cases k <;> decide

/-- The digits from the lowest one up are those of the number. -/
lemma foldr_digitChar (h : ∀ d ∈ ds', d < 10) :
    (ds'.map digitChar).foldr (fun d n => n * 10 + offset d) 0 = Nat.ofDigits 10 ds' := by
  induction ds' with
  | nil => rfl
  | cons d ds' ih =>
    obtain ⟨-, hoffset, -⟩ := digitChar_spec (h d List.mem_cons_self)
    rw [List.map_cons, List.foldr_cons, ih fun d' hd' => h d' (List.mem_cons_of_mem _ hd'), hoffset,
      Nat.ofDigits_cons]
    ring

/-- What is printed is a number, and the same one. -/
lemma numberOf_decimal (n : ℕ) : numberOf (decimal n) = some n := by
  rw [decimal]
  split_ifs with hzero
  · subst hzero
    decide
  have hlt : ∀ d ∈ Nat.digits 10 n, d < 10 := fun d hd => Nat.digits_lt_base (by decide) hd
  have hne : (Nat.digits 10 n).reverse ≠ [] :=
    List.reverse_ne_nil_iff.mpr (Nat.digits_ne_nil_iff_ne_zero.mpr hzero)
  obtain ⟨d, ds, hdigits⟩ := List.exists_cons_of_ne_nil hne
  -- the first digit is not zero
  have hd : d ≠ 0 := by
    have hlast := Nat.getLast_digit_ne_zero 10 hzero
    rw [← List.head_reverse hne] at hlast
    simpa [hdigits] using hlast
  have hd' : d < 10 := hlt d (by rw [← List.mem_reverse, hdigits]; exact List.mem_cons_self)
  obtain ⟨hvalid, -, hspace, hchar⟩ := digitChar_spec hd'
  have hfirst : ((Nat.digits 10 n).reverse.map digitChar).getD 0 0 ≠ 0x30 := by
    rw [hdigits, List.map_cons, List.getD_cons_zero]
    exact hchar.not.mpr hd
  have hdrop : ((Nat.digits 10 n).reverse.map digitChar).dropWhile isspace =
      (Nat.digits 10 n).reverse.map digitChar := by
    rw [hdigits, List.map_cons, List.dropWhile_cons_of_neg (by simp [hspace])]
  have hhex : hasHexPrefix ((Nat.digits 10 n).reverse.map digitChar) = false := by
    rw [hasHexPrefix]
    simp only [hfirst, false_and, decide_false]
  rw [numberOf, hdrop]
  simp only [hhex, hfirst, if_false, Bool.false_eq_true]
  have hdigit : ∀ c ∈ (Nat.digits 10 n).reverse.map digitChar, valid c 10 = true := by
    intro c hc
    obtain ⟨k, hk, rfl⟩ := List.mem_map.mp hc
    exact (digitChar_spec (hlt k (List.mem_reverse.mp hk))).1
  have hvalue : ((Nat.digits 10 n).reverse.map digitChar).foldl (fun n d => n * 10 + offset d) 0 =
      n := by
    rw [List.map_reverse, List.foldl_reverse, foldr_digitChar hlt, Nat.ofDigits_digits]
  rw [numeral, if_pos ⟨by simp [hdigits], hdigit⟩, hvalue]

lemma decimal_inj (h : decimal n = decimal m) : n = m := by
  have hsame := congrArg numberOf h
  rw [numberOf_decimal, numberOf_decimal] at hsame
  exact Option.some.inj hsame

end ApuBios.Options
