import ApuBios.Payloads.SortBootOrder.Fetch

/-!
# The values of the toggles

At the start the menu searches the file for the tag of a toggle, and converts what stands behind it.
When the list is saved the value is put into the first line that starts with the tag. Model of
`cbfs_find_string` in `libcbfs/cbfs_core.c` and of `strtoul` in `libc/string.c`, both of libpayload;
memory is a function from addresses, with the file where it is mapped.
-/

namespace ApuBios.SortBootOrder

/-! ### Searching -/

/-- `strncmp(s1, s2, strlen(s1))` -/
def strncmp (mem : Flash) : List Char8 → ℕ → ℤ
  | [], _ => 0
  | c :: s1, s2 =>
    let res := c.toInt - (mem s2).toInt
    if res ≠ 0 then res else strncmp mem s1 (s2 + 1)

/-- The address of the string, or zero. No value means that the terminator is not reached. -/
def cbfsFindString (mem : Flash) (string : List Char8) : ℕ → ℕ → Option ℕ
  | 0, _ => none
  | n + 1, data =>
    if mem data = NUL then some 0
    else if strncmp mem string data = 0 then some data
    else cbfsFindString mem string n (data + 1)

/-! ### Converting -/

def isspace (c : Char8) : Prop := c.toInt = 32 ∨ 9 ≤ c.toInt ∧ c.toInt ≤ 13

/-- `_valid(ch, 10)` -/
def valid (ch : Char8) : Prop := 48 ≤ ch.toInt ∧ ch.toInt ≤ 57

instance (c : Char8) : Decidable (isspace c) := inferInstanceAs (Decidable (_ ∨ _))
instance (c : Char8) : Decidable (valid c) := inferInstanceAs (Decidable (_ ∧ _))

/-- White space is skipped. No value means that the string goes on behind what is given. -/
def purge : List Char8 → Option (List Char8)
  | [] => none
  | c :: ptr => if c ≠ NUL ∧ isspace c then purge ptr else some (c :: ptr)

def convert : List Char8 → ℕ → Option ℕ
  | [], _ => none
  | c :: ptr, ret =>
    if c ≠ NUL ∧ valid c then convert ptr ((ret * 10 + (c.toNat - 0x30)) % 2 ^ 64) else some ret

/-- With the base 10. -/
def strtoull (ptr : List Char8) : Option ℕ :=
  (purge ptr).bind fun ptr =>
    if ptr.headD NUL = NUL ∨ ¬ valid (ptr.headD NUL) then some 0 else convert ptr 0

def strtoul (ptr : List Char8) : Option ℕ :=
  (strtoull ptr).map fun val => if val > 0xffffffff then 0xffffffff else val

/-- The characters of memory from the address. -/
def chars (mem : Flash) (p n : ℕ) : List Char8 := (List.range n).map fun i => mem (p + i)

/-- `ipxe_toggle` and `serial_toggle` at the start, if the loops end within `n` characters. What was
found is tested after the length of the tag is added. -/
def initToggle (mem : Flash) (flash_address : ℕ) (tag : List Char8) (n : ℕ) : Option Char8 :=
  (cbfsFindString mem tag n flash_address).bind fun str =>
    let str := str + tag.length
    if str ≠ 0 then (strtoul (chars mem str n)).map (BitVec.ofNat 8) else some 1

/-! ### What is to hold -/

/-- The value of the toggle at the start. -/
def Starts (mem : Flash) (flash_address : ℕ) (tag : List Char8) (value : Char8) : Prop :=
  ∃ n, initToggle mem flash_address tag n = some value

/-- The character that a value of one digit is written as. -/
def digit (v : ℕ) : Char8 := BitVec.ofNat 8 v + 0x30

/-- The number at an address. -/
def NumberAt (mem : Flash) (p : ℕ) (value : Char8) : Prop :=
  ∃ n number, strtoul (chars mem p n) = some number ∧ BitVec.ofNat 8 number = value

variable {mem mem' : Flash} {stack : ℕ → Char8} {buffer : Table} {lines : List (List Char8)}
  {tag text pre l l' : List Char8} {c value : Char8} {flash_address a p n m i k : ℕ}

/-! ### What is found -/

/-- What is used of a tag: that it has letters only. -/
structure IsTag (tag : List Char8) : Prop where
  ne : tag ≠ []
  nul : NUL ∉ tag
  newline : NEWLINE ∉ tag
  letter : ∀ c ∈ tag, ¬ isspace c ∧ ¬ valid c

lemma isTag_of_mem (h : tag ∈ [tagScon, tagPxen]) : IsTag tag := by
  rw [List.mem_cons, List.mem_singleton] at h
  rcases h with rfl | rfl
  · exact ⟨by decide, by decide, by decide, by decide⟩
  · exact ⟨by decide, by decide, by decide, by decide⟩

lemma strncmp_eq_zero : strncmp mem l p = 0 ↔ Reads mem p l := by
  induction l generalizing p with
  | nil => exact iff_of_true rfl fun i hi => absurd hi (Nat.not_lt_zero i)
  | cons c l ih =>
    rw [strncmp]
    split_ifs with hne
    · refine iff_of_false hne fun h => hne ?_
      rw [h.head, sub_self]
    · have hc : mem p = c := BitVec.eq_of_toInt_eq (by omega)
      rw [ih]
      constructor
      · intro h i hi
        cases i with
        | zero => exact hc
        | succ i =>
          have := h i (Nat.lt_of_succ_lt_succ hi)
          rwa [Nat.add_right_comm] at this
      · exact Reads.tail

lemma Reads.iff_start (h : Reads mem p text) (hlen : l.length ≤ text.length) :
    Reads mem p l ↔ l <+: text := by
  rw [List.prefix_iff_getElem]
  constructor
  · intro hl
    exact ⟨hlen, fun i hi => by rw [← hl i hi, h i (by omega)]⟩
  · rintro ⟨_, hl⟩ i hi
    rw [hl i hi, h i (by omega)]

lemma Reads.of_prefix (h : Reads mem p text) (hl : l <+: text) : Reads mem p l :=
  (h.iff_start hl.length_le).mpr hl

lemma Reads.drop (h : Reads mem p text) (hk : k ≤ text.length) :
    Reads mem (p + k) (text.drop k) := by
  rw [← List.take_append_drop k text] at h
  have := h.right
  rwa [List.length_take, min_eq_left hk] at this

/-- The first place of the tag is found. -/
lemma find_first (htag : IsTag tag) (hreads : Reads mem p (pre ++ tag)) (hnul : NUL ∉ pre)
    (hfirst : ∀ j < pre.length, ¬ tag <+: (pre ++ tag).drop j) (hn : pre.length < n) :
    cbfsFindString mem tag n p = some (p + pre.length) := by
  induction pre generalizing p n with
  | nil =>
    obtain ⟨n, rfl⟩ : ∃ n', n = n' + 1 := ⟨n - 1, by rw [List.length_nil] at hn; omega⟩
    rw [List.nil_append] at hreads
    have hc : mem p ≠ NUL := by
      cases tag with
      | nil => exact absurd rfl htag.ne
      | cons c tag =>
        rw [hreads.head]
        exact fun h => htag.nul (h ▸ List.mem_cons_self)
    rw [cbfsFindString, if_neg hc, if_pos (strncmp_eq_zero.mpr hreads)]
    rfl
  | cons c pre ih =>
    rw [List.length_cons] at hn hfirst
    obtain ⟨n, rfl⟩ : ∃ n', n = n' + 1 := ⟨n - 1, by omega⟩
    rw [List.mem_cons, not_or] at hnul
    have hc : mem p ≠ NUL := by
      rw [hreads.head]
      exact Ne.symm hnul.1
    have hnot : strncmp mem tag p ≠ 0 := by
      rw [Ne, strncmp_eq_zero, hreads.iff_start (by rw [List.length_append]; omega)]
      exact hfirst 0 (Nat.succ_pos _)
    rw [cbfsFindString, if_neg hc, if_neg hnot, ih hreads.tail hnul.2
      (fun j hj => hfirst (j + 1) (Nat.succ_lt_succ hj)) (by omega), List.length_cons]
    congr 1
    omega

/-- A tag that is not in the text is not found. -/
lemma find_none (htag : IsTag tag) (hreads : Reads mem p (text ++ [NUL])) (hnul : NUL ∉ text)
    (hnone : ∀ j, ¬ tag <+: text.drop j) (hn : text.length < n) :
    cbfsFindString mem tag n p = some 0 := by
  induction text generalizing p n with
  | nil =>
    obtain ⟨n, rfl⟩ : ∃ n', n = n' + 1 := ⟨n - 1, by rw [List.length_nil] at hn; omega⟩
    rw [cbfsFindString, if_pos (hreads.head)]
  | cons c text ih =>
    rw [List.length_cons] at hn
    obtain ⟨n, rfl⟩ : ∃ n', n = n' + 1 := ⟨n - 1, by omega⟩
    rw [List.mem_cons, not_or] at hnul
    have hc : mem p ≠ NUL := by
      rw [hreads.head]
      exact Ne.symm hnul.1
    have hnot : strncmp mem tag p ≠ 0 := by
      rw [Ne, strncmp_eq_zero]
      intro htagged
      by_cases hlen : tag.length ≤ (c :: text).length
      · exact hnone 0 ((hreads.left.iff_start hlen).mp htagged)
      · -- the terminator would be in the tag
        have hin : (c :: text).length < tag.length := by omega
        have hlast := hreads.right.head
        rw [htagged _ hin] at hlast
        exact htag.nul (hlast ▸ List.getElem_mem hin)
    rw [cbfsFindString, if_neg hc, if_neg hnot]
    exact ih hreads.tail hnul.2 (fun j => hnone (j + 1)) (by omega)

lemma find_mono (h : cbfsFindString mem tag n a = some p) (hle : n ≤ m) :
    cbfsFindString mem tag m a = some p := by
  induction n generalizing a m with
  | zero => cases h
  | succ n ih =>
    obtain ⟨m, rfl⟩ : ∃ m', m = m' + 1 := ⟨m - 1, by omega⟩
    rw [cbfsFindString] at h ⊢
    split_ifs at h ⊢
    · exact h
    · exact h
    · exact ih h (by omega)

/-! ### The number in a string -/

lemma isspace_nul : ¬ isspace NUL := by decide

lemma valid_nul : ¬ valid NUL := by decide

lemma not_isspace_of_valid (h : valid c) : ¬ isspace c := by
  rw [valid] at h
  rw [isspace]
  omega

lemma purge_space (h : isspace c) : purge (c :: l) = purge l :=
  if_pos ⟨fun hc => isspace_nul (hc ▸ h), h⟩

lemma purge_stop (h : ¬ isspace c) : purge (c :: l) = some (c :: l) := if_neg fun hc => h hc.2

lemma convert_valid (h : valid c) :
    convert (c :: l) n = convert l ((n * 10 + (c.toNat - 0x30)) % 2 ^ 64) :=
  if_pos ⟨fun hc => valid_nul (hc ▸ h), h⟩

lemma convert_stop (h : ¬ valid c) : convert (c :: l) n = some n := if_neg fun hc => h hc.2

lemma purge_mono (h : purge l = some l') (rest : List Char8) :
    purge (l ++ rest) = some (l' ++ rest) := by
  induction l with
  | nil => cases h
  | cons c l ih =>
    rw [List.cons_append]
    by_cases hc : isspace c
    · rw [purge_space hc] at h ⊢
      exact ih h
    · rw [purge_stop hc, Option.some_inj] at h
      rw [purge_stop hc, ← h]
      rfl

lemma purge_ne_nil (h : purge l = some l') : l' ≠ [] := by
  induction l with
  | nil => cases h
  | cons c l ih =>
    by_cases hc : isspace c
    · rw [purge_space hc] at h
      exact ih h
    · rw [purge_stop hc, Option.some_inj] at h
      rw [← h]
      exact List.cons_ne_nil _ _

lemma convert_mono (h : convert l n = some m) (rest : List Char8) :
    convert (l ++ rest) n = some m := by
  induction l generalizing n with
  | nil => cases h
  | cons c l ih =>
    rw [List.cons_append]
    by_cases hc : valid c
    · rw [convert_valid hc] at h ⊢
      exact ih h
    · rw [convert_stop hc] at h ⊢
      exact h

/-- What a string is converted to does not depend on what follows its number. -/
lemma strtoul_mono (h : strtoul l = some n) (rest : List Char8) :
    strtoul (l ++ rest) = some n := by
  rw [strtoul, Option.map_eq_some_iff] at h
  obtain ⟨val, hval, hn⟩ := h
  rw [strtoull, Option.bind_eq_some_iff] at hval
  obtain ⟨ptr, hptr, hval⟩ := hval
  obtain ⟨c, ptr, rfl⟩ := List.exists_cons_of_ne_nil (purge_ne_nil hptr)
  rw [strtoul, strtoull, purge_mono hptr, Option.bind_some, List.cons_append]
  rw [List.headD_cons] at hval ⊢
  split_ifs at hval ⊢
  · rw [hval, Option.map_some, hn]
  · rw [← List.cons_append, convert_mono hval, Option.map_some, hn]

/-- A number ends in front of a letter at the latest. -/
lemma strtoul_stop (l : List Char8) (hspace : ¬ isspace c) (hvalid : ¬ valid c) :
    ∃ n, strtoul (l ++ [c]) = some n := by
  have hconvert : ∀ l n, ∃ m, convert (l ++ [c]) n = some m := by
    intro l
    induction l with
    | nil => exact fun n => ⟨n, convert_stop hvalid⟩
    | cons d l ih =>
      intro n
      rw [List.cons_append]
      by_cases hd : valid d
      · rw [convert_valid hd]
        exact ih _
      · exact ⟨n, convert_stop hd⟩
  have hpurge : ∃ ptr, purge (l ++ [c]) = some (ptr ++ [c]) := by
    induction l with
    | nil => exact ⟨[], purge_stop hspace⟩
    | cons d l ih =>
      rw [List.cons_append]
      by_cases hd : isspace d
      · rw [purge_space hd]
        exact ih
      · exact ⟨d :: l, purge_stop hd⟩
  obtain ⟨ptr, hptr⟩ := hpurge
  rw [strtoul, strtoull, hptr, Option.bind_some]
  split_ifs
  · exact ⟨_, rfl⟩
  · obtain ⟨m, hm⟩ := hconvert ptr 0
    rw [hm]
    exact ⟨_, rfl⟩

/-- All digits but the last one are multiplied by ten. -/
lemma convert_parity {ds : List Char8} (hds : ∀ d ∈ ds, valid d) (hne : ds ≠ [])
    (hc : ¬ valid c) (rest : List Char8) :
    ∃ m, convert (ds ++ c :: rest) n = some m ∧ m % 2 = (ds.getLast hne).toNat % 2 := by
  induction ds generalizing n with
  | nil => exact absurd rfl hne
  | cons d ds ih =>
    have hd : valid d := hds d List.mem_cons_self
    rw [List.cons_append, convert_valid hd]
    cases ds with
    | nil =>
      refine ⟨_, convert_stop hc, ?_⟩
      have hdigit : 0x30 ≤ d.toNat := by
        rw [valid, BitVec.toInt_eq_toNat_cond] at hd
        split_ifs at hd <;> omega
      rw [List.getLast_singleton]
      omega
    | cons d' ds =>
      rw [List.getLast_cons (List.cons_ne_nil d' ds)]
      exact ih (fun d hd => hds d (List.mem_cons_of_mem _ hd)) (List.cons_ne_nil d' ds)

lemma toNat_digit {v : ℕ} (hv : v < 10) : (digit v).toNat = 0x30 + v := by
  rw [digit, BitVec.toNat_add, BitVec.toNat_ofNat]
  change (v % 256 + 48) % 256 = 48 + v
  omega

lemma valid_digit {v : ℕ} (hv : v < 10) : valid (digit v) := by
  rw [valid, BitVec.toInt_eq_toNat_cond, toNat_digit hv]
  split_ifs <;> omega

lemma strtoul_digits {v : ℕ} (hv : v < 10) :
    strtoul (digit v :: l) =
      (convert l v).map fun val => if val > 0xffffffff then 0xffffffff else val := by
  have hvalid := valid_digit hv
  have hnul : digit v ≠ NUL := fun h => valid_nul (h ▸ hvalid)
  have hval : (0 * 10 + ((digit v).toNat - 0x30)) % 2 ^ 64 = v := by
    rw [toNat_digit hv]
    omega
  rw [strtoul, strtoull, purge_stop (not_isspace_of_valid hvalid), Option.bind_some,
    List.headD_cons, if_neg (not_or.mpr ⟨hnul, not_not.mpr hvalid⟩), convert_valid hvalid, hval]

/-- One digit is converted to its value. -/
lemma strtoul_digit {v : ℕ} (hv : v < 10) (hc : ¬ valid c) (rest : List Char8) :
    strtoul (digit v :: c :: rest) = some v := by
  rw [strtoul_digits hv, convert_stop hc, Option.map_some, if_neg (by omega)]

/-- With more digits behind it, not every first digit is converted to its value. -/
lemma strtoul_more {ds : List Char8} (hds : ∀ d ∈ ds, valid d) (hne : ds ≠ []) (hc : ¬ valid c)
    (rest : List Char8) :
    ∃ n₀ n₁, strtoul (digit 0 :: (ds ++ c :: rest)) = some n₀ ∧
      strtoul (digit 1 :: (ds ++ c :: rest)) = some n₁ ∧
      ¬ (BitVec.ofNat 8 n₀ = (0 : Char8) ∧ BitVec.ofNat 8 n₁ = (1 : Char8)) := by
  obtain ⟨m₀, hm₀, hlast₀⟩ := convert_parity (n := 0) hds hne hc rest
  obtain ⟨m₁, hm₁, hlast₁⟩ := convert_parity (n := 1) hds hne hc rest
  rw [strtoul_digits (by norm_num), hm₀, Option.map_some, strtoul_digits (by norm_num), hm₁,
    Option.map_some]
  refine ⟨_, _, rfl, rfl, ?_⟩
  rintro ⟨hzero, hone⟩
  have hzero := congrArg BitVec.toNat hzero
  have hone := congrArg BitVec.toNat hone
  rw [BitVec.toNat_ofNat] at hzero hone
  change _ = 0 at hzero
  change _ = 1 at hone
  split_ifs at hzero hone <;> omega

/-- The digits at the start of a string, and what ends them. -/
lemma exists_digits (h : ∃ y ∈ l, ¬ valid y) :
    ∃ ds y rest, l = ds ++ y :: rest ∧ (∀ d ∈ ds, valid d) ∧ ¬ valid y := by
  induction l with
  | nil =>
    obtain ⟨y, hy, -⟩ := h
    exact absurd hy List.not_mem_nil
  | cons c l ih =>
    by_cases hc : valid c
    · obtain ⟨y, hy, hnot⟩ := h
      have hrest : y ∈ l := (List.mem_cons.mp hy).resolve_left fun h => hnot (h ▸ hc)
      obtain ⟨ds, z, rest, rfl, hds, hz⟩ := ih ⟨y, hrest, hnot⟩
      exact ⟨c :: ds, z, rest, rfl, List.forall_mem_cons.mpr ⟨hc, hds⟩, hz⟩
    · exact ⟨[], c, l, rfl, fun d hd => absurd hd List.not_mem_nil, hc⟩

/-! ### What is read at the start -/

@[simp] lemma length_chars : (chars mem p n).length = n := by simp [chars]

lemma reads_chars : Reads mem p (chars mem p n) := by
  intro i hi
  simp [chars]

lemma chars_congr (h : ∀ i < n, mem (p + i) = mem' (p + i)) : chars mem p n = chars mem' p n :=
  List.map_congr_left fun i hi => h i (List.mem_range.mp hi)

lemma Reads.append (h : Reads mem p l) (h' : Reads mem (p + l.length) l') :
    Reads mem p (l ++ l') := by
  intro i hi
  rw [List.length_append] at hi
  by_cases hlt : i < l.length
  · rw [List.getElem_append_left hlt, h i hlt]
  · rw [List.getElem_append_right (by omega), ← h' (i - l.length) (by omega)]
    congr 1
    omega

lemma mem_chars : c ∈ chars mem p n ↔ ∃ i < n, mem (p + i) = c := by
  simp [chars]

lemma Reads.eq_chars (h : Reads mem p text) : chars mem p text.length = text := by
  refine List.ext_getElem length_chars fun i hi hi' => ?_
  rw [← h i hi', reads_chars i hi]

lemma chars_add (p n m : ℕ) : chars mem p (n + m) = chars mem p n ++ chars mem (p + n) m := by
  rw [chars, List.range_add, List.map_append, List.map_map]
  refine congrArg _ (List.map_congr_left fun i _ => ?_)
  rw [Function.comp_apply, Nat.add_assoc]

lemma strtoul_chars_mono (h : strtoul (chars mem p n) = some k) (hle : n ≤ m) :
    strtoul (chars mem p m) = some k := by
  obtain ⟨d, rfl⟩ := Nat.exists_eq_add_of_le hle
  rw [chars_add]
  exact strtoul_mono h _

lemma strtoul_chars_unique (h : strtoul (chars mem p n) = some i)
    (h' : strtoul (chars mem p m) = some k) : i = k :=
  Option.some.inj ((strtoul_chars_mono h (le_max_left n m)).symm.trans
    (strtoul_chars_mono h' (le_max_right n m)))

/-- The number of a text that is read at the address. -/
lemma numberAt_iff (h : Reads mem p text) (hnumber : strtoul text = some n) :
    NumberAt mem p value ↔ BitVec.ofNat 8 n = value := by
  rw [← h.eq_chars] at hnumber
  constructor
  · rintro ⟨m, number, hm, rfl⟩
    rw [strtoul_chars_unique hm hnumber]
  · intro hvalue
    exact ⟨_, n, hnumber, hvalue⟩

/-- What is found decides which number is read. -/
lemma starts_iff (htag : IsTag tag) (hfind : cbfsFindString mem tag n a = some p) :
    Starts mem a tag value ↔ NumberAt mem (p + tag.length) value := by
  have hne : p + tag.length ≠ 0 := by
    have := List.length_pos_of_ne_nil htag.ne
    omega
  constructor
  · rintro ⟨m, hm⟩
    rw [initToggle, Option.bind_eq_some_iff] at hm
    obtain ⟨p', hp', hm⟩ := hm
    obtain rfl : p' = p := Option.some.inj ((find_mono hp' (le_max_left m n)).symm.trans
      (find_mono hfind (le_max_right m n)))
    dsimp only at hm
    rw [if_pos hne, Option.map_eq_some_iff] at hm
    exact ⟨m, hm⟩
  · rintro ⟨m, number, hm, hvalue⟩
    refine ⟨max n m, ?_⟩
    rw [initToggle, find_mono hfind (le_max_left n m), Option.bind_some]
    dsimp only
    rw [if_pos hne, strtoul_chars_mono hm (le_max_right n m), Option.map_some, hvalue]

lemma Starts.unique {value' : Char8} (htag : IsTag tag) (h : Starts mem a tag value)
    (h' : Starts mem a tag value') : value = value' := by
  obtain ⟨n, hn⟩ := id h
  rw [initToggle, Option.bind_eq_some_iff] at hn
  obtain ⟨p, hp, -⟩ := hn
  obtain ⟨i, number, hi, rfl⟩ := (starts_iff htag hp).mp h
  obtain ⟨j, number', hj, rfl⟩ := (starts_iff htag hp).mp h'
  rw [strtoul_chars_unique hi hj]

end ApuBios.SortBootOrder
