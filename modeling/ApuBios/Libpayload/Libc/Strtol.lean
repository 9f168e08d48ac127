import ApuBios.Library.Word
import ApuBios.Libpayload.Options.Numbers
import Mathlib.Data.List.TakeWhile

/-!
# Numbers in strings

Model of `strtol` and `strtoull` in `libc/string.c`, for every base. A string is the list of its
characters before the terminator, and `endptr` is what is left of it. An `int` wraps around.
-/

namespace ApuBios.Libc

open Options

/-! ### Model -/

/-- The base, and the text behind what stands in front of the digits. -/
def determine (base : ℕ) (ptr : List (BitVec 8)) : ℕ × List (BitVec 8) :=
  let (base, ptr) :=
    if base = 0 then
      if hasHexPrefix ptr then (16, ptr)
      else if ptr.getD 0 0 = 0x30 then (8, ptr.drop 1)
      else (10, ptr)
    else (base, ptr)
  if base = 16 ∧ hasHexPrefix ptr then (base, ptr.drop 2) else (base, ptr)

/-- The loop over the digits; `wrap` is the conversion to the type of `ret`. -/
def convert (wrap : ℤ → ℤ) (base : ℕ) : (ptr : List (BitVec 8)) → (ret : ℤ) → ℤ × List (BitVec 8)
  | [], ret => (ret, [])
  | c :: ptr, ret =>
    if valid c base then convert wrap base ptr (wrap (ret * base + offset c)) else (ret, c :: ptr)

/-- What both functions do behind the white space and the sign. No value means that they return
without having set `endptr` again. -/
def number (wrap : ℤ → ℤ) (base : ℕ) (ptr : List (BitVec 8)) : Option (ℤ × List (BitVec 8)) :=
  if ptr = [] then none
  else
    let (base, ptr) := determine base ptr
    if ptr.head?.any (valid · base) then some (convert wrap base ptr 0) else none

def strtoull (ptr : List (BitVec 8)) (base : ℕ) : ℤ × List (BitVec 8) :=
  (number (fun i => Word.ofInt 64 i) base (ptr.dropWhile isspace)).getD (0, ptr)

/-- `negative`, and the text behind the sign -/
def skipSign (ptr : List (BitVec 8)) : ℤ × List (BitVec 8) :=
  if ptr.head? = some 0x2d then (-1, ptr.tail) else (1, ptr)

def strtol (ptr : List (BitVec 8)) (base : ℕ) : ℤ × List (BitVec 8) :=
  let (negative, text) := skipSign (ptr.dropWhile isspace)
  ((number (Word.toInt 32) base text).map fun r => (Word.toInt 32 (r.1 * negative), r.2)).getD (0, ptr)

/-! ### Numbers -/

/-- The value of a digit or letter. -/
def digitValue (c : BitVec 8) : Option ℕ :=
  if 0x30 ≤ c.toNat ∧ c.toNat ≤ 0x39 then some (c.toNat - 0x30)
  else if 0x41 ≤ c.toNat ∧ c.toNat ≤ 0x5a then some (c.toNat - 0x41 + 10)
  else if 0x61 ≤ c.toNat ∧ c.toNat ≤ 0x7a then some (c.toNat - 0x61 + 10)
  else none

def isDigit (base : ℕ) (c : BitVec 8) : Bool := (digitValue c).any (· < base)

/-- The value of a string of digits. -/
def value (base : ℕ) (ds : List (BitVec 8)) : ℕ :=
  ds.foldl (fun n d => n * base + (digitValue d).getD 0) 0

/-- The digits `ds` of base `b` behind `pre` are a number for a call with `base`: in base 0 a number
is hexadecimal behind `0x`, octal if its first digit is zero, and decimal otherwise. -/
inductive Form : (base : ℕ) → (pre ds : List (BitVec 8)) → (b : ℕ) → Prop
  | given (base : ℕ) (ds : List (BitVec 8)) : 2 ≤ base → base ≤ 36 → Form base [] ds base
  | hexadecimal (x : BitVec 8) (ds : List (BitVec 8)) : x = 0x78 ∨ x = 0x58 → Form 0 [0x30, x] ds 16
  | octal (ds : List (BitVec 8)) : Form 0 [] (0x30 :: ds) 8
  | decimal (d : BitVec 8) (ds : List (BitVec 8)) : d ≠ 0x30 → Form 0 [] (d :: ds) 10

/-- The text behind the digits starts with no digit. -/
structure Numeral (base : ℕ) (pre ds rest : List (BitVec 8)) (b : ℕ) : Prop where
  form : Form base pre ds b
  ne_nil : ds ≠ []
  digits : ∀ d ∈ ds, isDigit b d
  stops : ∀ c ∈ rest.head?, isDigit b c = false

/-- A letter as a digit of base 11; a lone zero in base 0; a zero in base 16 with an `x` behind it. -/
def Misread (base : ℕ) (pre ds rest : List (BitVec 8)) : Prop :=
  (base = 11 ∧ ∃ d ∈ ds, digitValue d = some 10) ∨ (base = 0 ∧ pre = [] ∧ ds = [0x30]) ∨
    (base = 16 ∧ ds = [0x30] ∧ (rest.head? = some 0x78 ∨ rest.head? = some 0x58))

/-- No digit of the base is at the front; in base 0 a decimal digit is one. -/
def NoDigit (base : ℕ) (text : List (BitVec 8)) : Prop :=
  ∀ c ∈ text.head?, isDigit (if base = 0 then 10 else base) c = false

def signChars (negative : Bool) : List (BitVec 8) := if negative then [0x2d] else []

/-- The value with its sign. -/
def signed (negative : Bool) (n : ℕ) : ℤ := if negative then -n else n

variable {base b v : ℕ} {pre ds rest ws ptr : List (BitVec 8)} {c d : BitVec 8} {wrap : ℤ → ℤ}
  {m : ℤ}

/-! ### Characters -/

lemma tolower_toNat (c : BitVec 8) :
    (tolower c).toNat = if 0x41 ≤ c.toNat ∧ c.toNat ≤ 0x5a then c.toNat + 0x20 else c.toNat := by
  revert c
  decide +kernel

lemma offset_eq (h : digitValue c = some v) : offset c = v := by
  unfold digitValue at h
  unfold offset
  rw [tolower_toNat]
  split_ifs at h ⊢ <;> simp only [Option.some.injEq] at h <;> omega

/-- Only the letter of base 11 is missing. -/
lemma valid_iff (hle : 2 ≤ base) (hle' : base ≤ 36) :
    valid c base = true ↔ ∃ v, digitValue c = some v ∧ v < base ∧ ¬ (base = 11 ∧ v = 10) := by
  simp only [valid, tolower_toNat, digitValue, decide_eq_true_eq]
  split_ifs <;> first
    | (simp only [Option.some.injEq, exists_eq_left']; omega)
    | (simp only [false_and, exists_const, iff_false]; omega)

lemma isDigit_iff : isDigit base c = true ↔ ∃ v, digitValue c = some v ∧ v < base := by
  rw [isDigit, Option.any_eq_true]
  simp

lemma isDigit_of_valid (hle : 2 ≤ base) (hle' : base ≤ 36) (h : valid c base = true) :
    isDigit base c = true := by
  obtain ⟨v, hv, hlt, -⟩ := (valid_iff hle hle').mp h
  exact isDigit_iff.mpr ⟨v, hv, hlt⟩

/-- White space, the sign and the `x` of a prefix are no digits. -/
lemma isDigit_spec (hle : base ≤ 36) (h : isDigit base c = true) :
    isspace c = false ∧ c ≠ 0x2d ∧ (base ≤ 16 → c ≠ 0x78 ∧ c ≠ 0x58) := by
  obtain ⟨v, hv, hlt⟩ := isDigit_iff.mp h
  unfold digitValue at hv
  simp only [isspace, decide_eq_false_iff_not]
  split_ifs at hv <;> simp only [Option.some.injEq] at hv <;> bv_omega

/-! ### The loop -/

/-- A conversion to an integer type. -/
structure Wraps (wrap : ℤ → ℤ) : Prop where
  zero : wrap 0 = 0
  mul_add (x k o : ℤ) : wrap (wrap x * k + o) = wrap (x * k + o)

lemma wraps_toInt : Wraps (Word.toInt 32) where
  zero := rfl
  mul_add x k o := by
    rw [Word.toInt, Word.toInt, Word.toInt, ← Int.add_bmod_bmod, ← Int.bmod_add_bmod,
      Int.bmod_mul_bmod, Int.bmod_add_bmod, Int.add_bmod_bmod]

lemma ofInt_eq_emod (i : ℤ) : (Word.ofInt 64 i : ℤ) = i % (2 ^ 64 : ℕ) := by
  rw [Word.ofInt, Int.toNat_of_nonneg (Int.emod_nonneg i (by positivity))]

lemma wraps_ofInt : Wraps fun i => (Word.ofInt 64 i : ℤ) where
  zero := rfl
  mul_add x k o := by
    simp only [ofInt_eq_emod]
    exact ((Int.mod_modEq x _).mul_right k).add_right o

lemma convert_snd (base : ℕ) (ptr : List (BitVec 8)) (ret : ℤ) :
    (convert wrap base ptr ret).2 = ptr.dropWhile (valid · base) := by
  induction ptr generalizing ret with
  | nil => rfl
  | cons c ptr ih =>
    rw [convert, List.dropWhile_cons]
    split_ifs
    · exact ih _
    · rfl

lemma convert_eq (hw : Wraps wrap) (hds : ∀ d ∈ ds, valid d base = true ∧ (digitValue d).isSome)
    (hrest : ∀ c ∈ rest.head?, valid c base = false) (n : ℕ) :
    convert wrap base (ds ++ rest) (wrap n) =
      (wrap (ds.foldl (fun n d => n * base + (digitValue d).getD 0) n : ℕ), rest) := by
  induction ds generalizing n with
  | nil =>
    cases rest with
    | nil => rfl
    | cons c rest =>
      have hc : valid c base = false := hrest c rfl
      rw [List.nil_append, convert, hc]
      rfl
  | cons d ds ih =>
    rw [List.forall_mem_cons] at hds
    obtain ⟨v, hv⟩ := Option.isSome_iff_exists.mp hds.1.2
    rw [List.cons_append, convert, if_pos hds.1.1, hw.mul_add, offset_eq hv, List.foldl_cons, hv,
      Option.getD_some, ← ih hds.2]
    push_cast
    rfl

/-! ### What stands in front of the digits -/

lemma Form.range (h : Form base pre ds b) : 2 ≤ b ∧ b ≤ 36 := by
  cases h with
  | given _ _ hle hle' => exact ⟨hle, hle'⟩
  | hexadecimal => decide
  | octal => decide
  | decimal => decide

lemma hasHexPrefix_cons (c : BitVec 8) (ptr : List (BitVec 8)) : hasHexPrefix (c :: ptr) = true ↔
    c = 0x30 ∧ (ptr.head? = some 0x78 ∨ ptr.head? = some 0x58) := by
  cases ptr <;> simp [hasHexPrefix]

/-- Digits are no prefix, apart from a zero with an `x` behind it. -/
lemma hasHexPrefix_digits (hb : b ≤ 16) (hds : ∀ d ∈ ds, isDigit b d)
    (hx : ds ≠ [] ∧ ¬ (ds = [0x30] ∧ (rest.head? = some 0x78 ∨ rest.head? = some 0x58))) :
    hasHexPrefix (ds ++ rest) = false := by
  obtain ⟨hne, hx⟩ := hx
  rw [← Bool.not_eq_true]
  cases ds with
  | nil => exact absurd rfl hne
  | cons d ds =>
    rw [List.cons_append, hasHexPrefix_cons]
    rintro ⟨rfl, hhead⟩
    cases ds with
    | nil => exact hx ⟨rfl, hhead⟩
    | cons d' ds =>
      have hd' := (isDigit_spec (by omega) (hds d' (by simp))).2.2 hb
      simp only [List.cons_append, List.head?_cons, Option.some.injEq] at hhead
      rcases hhead with hhead | hhead
      · exact hd'.1 hhead
      · exact hd'.2 hhead

/-- What is converted has the same value; the zero of an octal number is left out. -/
lemma determine_eq (h : Numeral base pre ds rest b) (hgood : ¬ Misread base pre ds rest) :
    ∃ ds', ds' ≠ [] ∧ (∀ d ∈ ds', d ∈ ds) ∧ value b ds' = value b ds ∧
      determine base (pre ++ (ds ++ rest)) = (b, ds' ++ rest) := by
  obtain ⟨hform, hne, hdigits, -⟩ := h
  cases hform with
  | given _ _ hle hle' =>
    refine ⟨ds, hne, fun _ hd => hd, rfl, ?_⟩
    rw [determine, if_neg (by omega)]
    refine if_neg ?_
    rintro ⟨h16, hhex⟩
    change base = 16 at h16
    have hdigit : hasHexPrefix (ds ++ rest) = false := hasHexPrefix_digits h16.le hdigits
      ⟨hne, fun hx => hgood (Or.inr (Or.inr ⟨h16, hx⟩))⟩
    rw [List.nil_append, hdigit] at hhex
    cases hhex
  | hexadecimal x _ hx =>
    refine ⟨ds, hne, fun _ hd => hd, rfl, ?_⟩
    have hhex : hasHexPrefix ([0x30, x] ++ (ds ++ rest)) = true := by
      rw [List.cons_append, hasHexPrefix_cons]
      simpa using hx
    rw [determine, if_pos rfl, if_pos hhex]
    exact if_pos ⟨rfl, hhex⟩
  | octal ds =>
    cases ds with
    | nil => exact absurd (Or.inr (Or.inl ⟨rfl, rfl, rfl⟩)) hgood
    | cons d ds =>
      refine ⟨d :: ds, List.cons_ne_nil _ _, fun _ hd => List.mem_cons_of_mem _ hd, rfl, ?_⟩
      have hhex : hasHexPrefix (0x30 :: d :: ds ++ rest) = false :=
        hasHexPrefix_digits (show 8 ≤ 16 by decide) hdigits ⟨hne, fun hx => by simp at hx⟩
      rw [determine, if_pos rfl, List.nil_append, if_neg (by rw [hhex]; decide)]
      rfl
  | decimal d ds hd =>
    refine ⟨d :: ds, hne, fun _ hd => hd, rfl, ?_⟩
    have hhex : hasHexPrefix (d :: ds ++ rest) = false := by
      rw [← Bool.not_eq_true, List.cons_append, hasHexPrefix_cons]
      exact fun hzero => hd hzero.1
    have hzero : (d :: ds ++ rest).getD 0 0 ≠ 0x30 := hd
    rw [determine, if_pos rfl, List.nil_append, if_neg (by rw [hhex]; decide), if_neg hzero]
    rfl

/-! ### Behind the white space and the sign -/

lemma number_eq_ite {ptr' : List (BitVec 8)} (hne : ptr ≠ []) (h : determine base ptr = (b, ptr')) :
    number wrap base ptr =
      if ptr'.head?.any (valid · b) then some (convert wrap b ptr' 0) else none := by
  simp only [number, if_neg hne, h]

/-- What is left are the characters that are not valid in the base. -/
lemma number_snd {ptr' : List (BitVec 8)} {r : ℤ × List (BitVec 8)} (hne : ptr ≠ [])
    (h : determine base ptr = (b, ptr')) (hr : number wrap base ptr = some r) :
    ptr'.head?.any (valid · b) = true ∧ r.2 = ptr'.dropWhile (valid · b) := by
  rw [number_eq_ite hne h] at hr
  split_ifs at hr with hvalid
  obtain rfl := Option.some.inj hr
  exact ⟨hvalid, convert_snd b ptr' 0⟩

/-- Only base 11 has digits that are not valid. -/
lemma Numeral.valid (h : Numeral base pre ds rest b) (hgood : ¬ Misread base pre ds rest)
    (hd : d ∈ ds) : valid d b = true ∧ (digitValue d).isSome := by
  obtain ⟨v, hv, hlt⟩ := isDigit_iff.mp (h.digits d hd)
  obtain ⟨hle, hle'⟩ := h.form.range
  refine ⟨(valid_iff hle hle').mpr ⟨v, hv, hlt, ?_⟩, by rw [hv]; rfl⟩
  rintro ⟨rfl, rfl⟩
  have hbase : base = 11 := by
    cases h.form
    rfl
  exact hgood (Or.inl ⟨hbase, d, hd, hv⟩)

lemma Numeral.ne_nil_append (h : Numeral base pre ds rest b) : pre ++ (ds ++ rest) ≠ [] := by
  simp [h.ne_nil]

lemma Numeral.not_valid (h : Numeral base pre ds rest b) (hc : c ∈ rest.head?) :
    Options.valid c b = false := by
  obtain ⟨hle, hle'⟩ := h.form.range
  rw [← Bool.not_eq_true]
  intro hvalid
  have := h.stops c hc
  rw [isDigit_of_valid hle hle' hvalid] at this
  cases this

lemma number_eq (hw : Wraps wrap) (h : Numeral base pre ds rest b)
    (hgood : ¬ Misread base pre ds rest) :
    number wrap base (pre ++ (ds ++ rest)) = some (wrap (value b ds), rest) := by
  obtain ⟨ds', hne, hmem, hvalue, hdetermine⟩ := determine_eq h hgood
  have hvalid : ∀ d ∈ ds', valid d b = true ∧ (digitValue d).isSome := fun d hd =>
    h.valid hgood (hmem d hd)
  have hfirst : (ds' ++ rest).head?.any (valid · b) = true := by
    cases ds' with
    | nil => exact absurd rfl hne
    | cons d ds' => exact (hvalid d List.mem_cons_self).1
  have hconvert := convert_eq hw hvalid (fun c hc => h.not_valid hc) 0
  rw [Nat.cast_zero, hw.zero] at hconvert
  rw [number_eq_ite h.ne_nil_append hdetermine, if_pos hfirst, hconvert, ← hvalue, value]

/-- Characters that are not valid stop the loop before the text behind the digits. -/
lemma dropWhile_ne {p : BitVec 8 → Bool} (hd : d ∈ ds) (hp : p d = false) :
    (ds ++ rest).dropWhile p ≠ rest := by
  have hne : ds.dropWhile p ≠ [] := by
    rw [ne_eq, List.dropWhile_eq_nil_iff]
    intro hall
    rw [hall d hd] at hp
    cases hp
  have hempty : (ds.dropWhile p).isEmpty = false := by simpa using hne
  rw [List.dropWhile_append, hempty]
  intro heq
  have hlen := congrArg List.length heq
  have := List.length_pos_of_ne_nil hne
  simp only [Bool.false_eq_true, if_false, List.length_append] at hlen
  omega

/-- A prefix is skipped together with the `x` that is not part of the number. -/
lemma dropWhile_tail_ne {p : BitVec 8 → Bool} (hne : rest ≠ []) : (rest.drop 1).dropWhile p ≠ rest := by
  intro heq
  have hle := (List.dropWhile_sublist p (l := rest.drop 1)).length_le
  rw [heq, List.length_drop] at hle
  have := List.length_pos_of_ne_nil hne
  omega

/-- A zero with an `x` behind it is skipped as a prefix, whatever follows. -/
lemma number_hexPrefix_ne {r : ℤ × List (BitVec 8)} (hbase : base = 0 ∨ base = 16)
    (hhex : hasHexPrefix (0x30 :: rest) = true) (hr : number wrap base (0x30 :: rest) = some r) :
    r.2 ≠ rest := by
  have hne : rest ≠ [] := by
    rintro rfl
    exact absurd hhex (by decide)
  have hdetermine : determine base (0x30 :: rest) = (16, rest.drop 1) := by
    rcases hbase with rfl | rfl
    · rw [determine, if_pos rfl, if_pos hhex]
      exact if_pos ⟨rfl, hhex⟩
    · exact if_pos ⟨rfl, hhex⟩
  rw [(number_snd (List.cons_ne_nil _ _) hdetermine hr).2]
  exact dropWhile_tail_ne hne

lemma number_misread {r : ℤ × List (BitVec 8)} (h : Numeral base pre ds rest b)
    (hbad : Misread base pre ds rest) (hr : number wrap base (pre ++ (ds ++ rest)) = some r) :
    r.2 ≠ rest := by
  rcases hbad with ⟨rfl, d, hd, hv⟩ | ⟨rfl, rfl, rfl⟩ | ⟨rfl, rfl, hx⟩
  · -- the letter of base 11
    obtain ⟨hform, -, -, -⟩ := h
    cases hform
    have hdetermine : determine 11 (ds ++ rest) = (11, ds ++ rest) := rfl
    rw [(number_snd (by simp [List.ne_nil_of_mem hd]) hdetermine hr).2]
    refine dropWhile_ne hd ?_
    rw [← Bool.not_eq_true, valid_iff (by decide) (by decide)]
    rintro ⟨v, hv', -, hne⟩
    rw [hv, Option.some.injEq] at hv'
    exact hne ⟨rfl, hv'.symm⟩
  · -- the zero alone
    have hb : b = 8 := by
      obtain ⟨hform, -, -, -⟩ := h
      cases hform with
      | given _ _ hle => omega
      | octal => rfl
      | decimal _ _ hne => exact absurd rfl hne
    subst hb
    by_cases hhex : hasHexPrefix (0x30 :: rest) = true
    · exact number_hexPrefix_ne (Or.inl rfl) hhex hr
    · have hdetermine : determine 0 (0x30 :: rest) = (8, rest) := by
        rw [determine, if_pos rfl, if_neg hhex]
        rfl
      obtain ⟨c, hc, hvalid⟩ := (Option.any_eq_true _ _).mp (number_snd (by simp) hdetermine hr).1
      rw [h.not_valid hc] at hvalid
      cases hvalid
  · -- the zero in front of an x
    have hpre : pre = [] := by
      obtain ⟨hform, -, -, -⟩ := h
      cases hform
      rfl
    subst hpre
    have hhex : hasHexPrefix (0x30 :: rest) = true := (hasHexPrefix_cons _ _).mpr ⟨rfl, hx⟩
    exact number_hexPrefix_ne (Or.inr rfl) hhex hr

/-- Where there is no digit, `endptr` stays at the start. -/
lemma number_eq_none (hbase : base = 0 ∨ 2 ≤ base ∧ base ≤ 36) (h : NoDigit base ptr) :
    number wrap base ptr = none := by
  cases ptr with
  | nil => rfl
  | cons c ptr =>
    have hc : isDigit (if base = 0 then 10 else base) c = false := h c rfl
    have hzero : c ≠ 0x30 := by
      rintro rfl
      have : isDigit (if base = 0 then 10 else base) 0x30 = true :=
        isDigit_iff.mpr ⟨0, rfl, by split_ifs <;> omega⟩
      rw [this] at hc
      cases hc
    have hhex : ¬ hasHexPrefix (c :: ptr) = true := fun hhex => hzero ((hasHexPrefix_cons _ _).mp hhex).1
    have hdetermine : determine base (c :: ptr) = (if base = 0 then 10 else base, c :: ptr) := by
      have hfirst : (c :: ptr).getD 0 0 ≠ 0x30 := hzero
      rw [determine, if_neg hhex, if_neg hfirst]
      split_ifs <;> exact if_neg fun hhex' => hhex hhex'.2
    have hvalid : (c :: ptr).head?.any (valid · (if base = 0 then 10 else base)) = false := by
      rw [← Bool.not_eq_true]
      intro hvalid
      rw [isDigit_of_valid (by split_ifs <;> omega) (by split_ifs <;> omega) hvalid] at hc
      cases hc
    rw [number_eq_ite (List.cons_ne_nil c ptr) hdetermine, hvalid]
    rfl

/-! ### Both functions -/

/-- The first character of a number. -/
lemma Numeral.first (h : Numeral base pre ds rest b) (hc : c ∈ (pre ++ (ds ++ rest)).head?) :
    isspace c = false ∧ c ≠ 0x2d := by
  obtain ⟨hform, hne, hdigits, -⟩ := h
  have hle := hform.range.2
  have hdigit : ∀ c ∈ (ds ++ rest).head?, isspace c = false ∧ c ≠ 0x2d := by
    intro c hc
    cases ds with
    | nil => exact absurd rfl hne
    | cons d ds =>
      obtain rfl : d = c := Option.some.inj hc
      obtain ⟨hspace, hminus, -⟩ := isDigit_spec hle (hdigits d List.mem_cons_self)
      exact ⟨hspace, hminus⟩
  cases hform with
  | hexadecimal x =>
    obtain rfl : 0x30 = c := Option.some.inj hc
    decide
  | given => exact hdigit c hc
  | octal => exact hdigit c hc
  | decimal => exact hdigit c hc

lemma dropWhile_isspace (hws : ∀ c ∈ ws, isspace c) (hptr : ∀ c ∈ ptr.head?, isspace c = false) :
    (ws ++ ptr).dropWhile isspace = ptr := by
  rw [List.dropWhile_append_of_pos hws]
  cases ptr with
  | nil => rfl
  | cons c ptr =>
    have hc : isspace c = false := hptr c rfl
    rw [List.dropWhile_cons_of_neg (by rw [hc]; decide)]

lemma skipSign_signChars (negative : Bool) (hptr : ∀ c ∈ ptr.head?, c ≠ 0x2d) :
    skipSign (signChars negative ++ ptr) = (if negative then -1 else 1, ptr) := by
  cases negative with
  | false => exact if_neg fun h => hptr 0x2d h rfl
  | true => rfl

lemma signed_eq (negative : Bool) (n : ℕ) :
    signed negative n = (n : ℤ) * if negative then -1 else 1 := by
  cases negative <;> simp [signed]

/-- The text in front of `endptr` is not empty. -/
lemma Numeral.start_ne (h : Numeral base pre ds rest b) (front : List (BitVec 8)) :
    front ++ (pre ++ (ds ++ rest)) ≠ rest := by
  intro heq
  have hlen := congrArg List.length heq
  have := List.length_pos_of_ne_nil h.ne_nil
  simp only [List.length_append] at hlen
  omega

lemma strtoull_iff (hws : ∀ c ∈ ws, isspace c) (h : Numeral base pre ds rest b)
    (hlt : value b ds < 2 ^ 64) :
    strtoull (ws ++ (pre ++ (ds ++ rest))) base = ((value b ds : ℤ), rest) ↔
      ¬ Misread base pre ds rest := by
  rw [strtoull, dropWhile_isspace hws fun c hc => (h.first hc).1]
  constructor
  · intro heq hbad
    cases hnumber : number (fun i => (Word.ofInt 64 i : ℤ)) base (pre ++ (ds ++ rest)) with
    | none =>
      rw [hnumber] at heq
      exact h.start_ne ws (congrArg Prod.snd heq)
    | some r =>
      rw [hnumber] at heq
      exact number_misread h hbad hnumber (congrArg Prod.snd heq)
  · intro hgood
    rw [number_eq wraps_ofInt h hgood, Option.getD_some, Word.ofInt_eq hlt]

lemma strtol_iff (hws : ∀ c ∈ ws, isspace c) (h : Numeral base pre ds rest b) (negative : Bool)
    (hlt : -2 ^ 31 ≤ signed negative (value b ds) ∧ signed negative (value b ds) < 2 ^ 31) :
    strtol (ws ++ (signChars negative ++ (pre ++ (ds ++ rest)))) base =
        (signed negative (value b ds), rest) ↔ ¬ Misread base pre ds rest := by
  have hspace : ∀ c ∈ (signChars negative ++ (pre ++ (ds ++ rest))).head?, isspace c = false := by
    intro c hc
    cases negative with
    | false => exact (h.first hc).1
    | true =>
      obtain rfl : 0x2d = c := Option.some.inj hc
      rfl
  have hsign := skipSign_signChars negative fun c hc => (h.first hc).2
  simp only [strtol, dropWhile_isspace hws hspace, hsign]
  constructor
  · intro heq hbad
    cases hnumber : number (Word.toInt 32) base (pre ++ (ds ++ rest)) with
    | none =>
      rw [hnumber] at heq
      refine h.start_ne (ws ++ signChars negative) ?_
      rw [List.append_assoc]
      exact congrArg Prod.snd heq
    | some r =>
      rw [hnumber] at heq
      exact number_misread h hbad hnumber (congrArg Prod.snd heq)
  · intro hgood
    have hwrap : Word.toInt 32 (Word.toInt 32 (value b ds) * if negative then -1 else 1) =
        signed negative (value b ds) := by
      obtain ⟨hle, hlt⟩ := hlt
      rw [Word.toInt, Word.toInt, Int.bmod_mul_bmod, ← signed_eq]
      exact Int.bmod_eq_of_le (by omega) (by omega)
    rw [number_eq wraps_toInt h hgood, Option.map_some, Option.getD_some, hwrap]

/-- Numbers are read with their value and `endptr` behind them, unless they are misread; where no
digit is present the value is zero and `endptr` is the start. -/
theorem strto_iff (hws : ∀ c ∈ ws, isspace c) (hbase : base = 0 ∨ 2 ≤ base ∧ base ≤ 36) :
    (∀ pre ds rest b, Numeral base pre ds rest b →
      (value b ds < 2 ^ 64 →
        (strtoull (ws ++ (pre ++ (ds ++ rest))) base = ((value b ds : ℤ), rest) ↔
          ¬ Misread base pre ds rest)) ∧
      ∀ negative, -2 ^ 31 ≤ signed negative (value b ds) ∧ signed negative (value b ds) < 2 ^ 31 →
        (strtol (ws ++ (signChars negative ++ (pre ++ (ds ++ rest)))) base =
            (signed negative (value b ds), rest) ↔ ¬ Misread base pre ds rest)) ∧
    ∀ s, (NoDigit base (s.dropWhile isspace) → strtoull s base = (0, s)) ∧
      (NoDigit base (skipSign (s.dropWhile isspace)).2 → strtol s base = (0, s)) := by
  refine ⟨fun pre ds rest b h => ⟨strtoull_iff hws h, strtol_iff hws h⟩, fun s => ⟨fun h => ?_,
    fun h => ?_⟩⟩
  · rw [strtoull, number_eq_none hbase h, Option.getD_none]
  · simp only [strtol, number_eq_none hbase h, Option.map_none, Option.getD_none]

def chars (s : String) : List (BitVec 8) := s.toList.map fun c => BitVec.ofNat 8 c.toNat

/-- A number in base 36 with a bracket behind it, and a bracket alone. -/
theorem strto_iff_letters :
    (strtoull (chars "zZ1]") 36 = ((value 36 (chars "zZ1") : ℤ), chars "]") ∧
      strtol (chars "-zZ1]") 36 = (signed true (value 36 (chars "zZ1")), chars "]")) ∧
    strtoull (chars "]") 36 = (0, chars "]") := by
  have hnumeral : Numeral 36 [] (chars "zZ1") (chars "]") 36 :=
    ⟨.given _ _ (by decide) (by decide), by decide, by decide, by decide⟩
  have hbase : 36 = 0 ∨ 2 ≤ 36 ∧ 36 ≤ 36 := by decide
  have hws : ∀ c ∈ ([] : List (BitVec 8)), isspace c := by decide
  have hboth := strto_iff hws hbase
  obtain ⟨hunsigned, hsigned⟩ := hboth.1 _ _ _ _ hnumeral
  have hright : ¬Misread 36 [] (chars "zZ1") (chars "]") := by simp [Misread]
  exact ⟨⟨(hunsigned (by decide)).mpr hright, (hsigned true (by decide)).mpr hright⟩,
    (hboth.2 (chars "]")).1 (by unfold NoDigit; decide)⟩

/-- The digit for ten in base 11, and zero in base 0. -/
theorem strto_misread :
    (Numeral 11 [] (chars "a") [] 11 ∧
      strtoull (chars "a") 11 ≠ ((value 11 (chars "a") : ℤ), []) ∧
      strtol (chars "a") 11 ≠ ((value 11 (chars "a") : ℤ), [])) ∧
    Numeral 0 [] (chars "0") [] 8 ∧
      strtoull (chars "0") 0 ≠ ((value 8 (chars "0") : ℤ), []) ∧
      strtol (chars "0") 0 ≠ ((value 8 (chars "0") : ℤ), []) :=
  ⟨⟨⟨.given _ _ (by decide) (by decide), by decide, by decide, by decide⟩, by decide, by decide⟩,
    ⟨.octal _, by decide, by decide, by decide⟩, by decide, by decide⟩

/-! ### The value in base 0 -/

lemma determine_zero (ptr : List (BitVec 8)) : determine 0 ptr = determineBase ptr := by
  rw [determine, determineBase, if_pos rfl]
  by_cases hhex : hasHexPrefix ptr = true
  · rw [if_pos hhex, if_pos hhex]
    exact if_pos ⟨rfl, hhex⟩
  · rw [if_neg hhex, if_neg hhex]
    split_ifs <;> rfl

lemma convert_fst (base : ℕ) (ptr : List (BitVec 8)) (n : ℕ) :
    (convert (fun i => (Word.ofInt 64 i : ℤ)) base ptr n).1 = Options.convert base ptr n := by
  induction ptr generalizing n with
  | nil => rfl
  | cons c ptr ih =>
    have hstep : (Word.ofInt 64 ((n : ℤ) * base + offset c) : ℤ) =
        ((n * base + offset c) % 2 ^ 64 : ℕ) := by
      rw [ofInt_eq_emod]
      push_cast
      rfl
    rw [convert, Options.convert]
    split_ifs
    · rw [hstep, ih]
    · rfl

/-- The value that the options are read with. -/
lemma strtoull_zero (ptr : List (BitVec 8)) : (strtoull ptr 0).1 = Options.strtoull ptr := by
  have hnone : ∀ b text, text.head?.any (Options.valid · b) = false → Options.convert b text 0 = 0 := by
    intro b text h
    cases text with
    | nil => rfl
    | cons c text => exact if_neg (by rw [show Options.valid c b = false from h]; decide)
  rw [strtoull, Options.strtoull]
  generalize ptr.dropWhile isspace = text
  by_cases hnil : text = []
  · subst hnil
    rfl
  · obtain ⟨b, text', hdetermine⟩ : ∃ b text', determineBase text = (b, text') := ⟨_, _, rfl⟩
    rw [number_eq_ite hnil ((determine_zero text).trans hdetermine)]
    simp only [hdetermine]
    split_ifs with hvalid
    · rw [Option.getD_some, ← Nat.cast_zero, convert_fst]
    · rw [hnone b text' (by simpa using hvalid)]
      rfl

end ApuBios.Libc
