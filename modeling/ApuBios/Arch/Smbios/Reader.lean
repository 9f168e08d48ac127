import ApuBios.Arch.Smbios.Basic

/-!
# Reading the tables

A reader starts at the address in the entry point and goes from structure to structure: behind the
formatted area of the stated length there is a set of strings that two zero bytes end.
-/

namespace ApuBios.Smbios

open Mem

variable {bs rest more cur : List UInt8} {ss : List (List UInt8)} {k : ℕ}

/-- A structure as it is read. -/
structure Structure where
  formatted : List UInt8
  strings : List (List UInt8)

def Structure.type (s : Structure) : ℕ := (s.formatted.getD 0 0).toNat

/-- Splits the bytes into strings, up to the empty one. -/
def splitStrings : List UInt8 → List UInt8 → Option (List (List UInt8) × List UInt8)
  | _, [] => none
  | cur, b :: bs =>
    if b ≠ 0 then splitStrings (cur ++ [b]) bs
    else if cur = [] then some ([], bs)
    else (splitStrings [] bs).map fun r => (cur :: r.1, r.2)

/-- A set of strings, and what is behind it. A set without strings consists of the two zero bytes
only. -/
def readStringSet : List UInt8 → Option (List (List UInt8) × List UInt8)
  | [] => none
  | b :: bs =>
    if b ≠ 0 then splitStrings [b] bs
    else if bs.head? = some 0 then some ([], bs.tail)
    else none

def readStructure (bs : List UInt8) : Option (Structure × List UInt8) :=
  let length := (bs.getD 1 0).toNat
  if 4 ≤ length ∧ length ≤ bs.length then
    (readStringSet (bs.drop length)).map fun r => (⟨bs.take length, r.1⟩, r.2)
  else none

/-- At most `k` structures, up to the one that ends the table. -/
def walk : ℕ → List UInt8 → Option (List Structure × List UInt8)
  | 0, _ => none
  | k + 1, bs => (readStructure bs).bind fun r =>
    if r.1.type = SMBIOS_END_OF_TABLE then some ([r.1], r.2)
    else (walk k r.2).map fun r' => (r.1 :: r'.1, r'.2)

/-- The members of a formatted area that hold the number of a string, or how many strings there
are. -/
def stringMembers : ℕ → List ℕ
  | 0 => [4, 5, 8]
  | 1 => [4, 5, 6, 7, 25, 26]
  | 2 => [4, 5, 6, 7]
  | 3 => [4, 6, 7, 8]
  | 4 => [4, 7, 16, 32, 33, 34]
  | 11 => [4]
  | 41 => [4]
  | _ => []

/-- Each number is that of a string, or 0. -/
def Structure.Valid (s : Structure) : Prop :=
  ∀ o ∈ stringMembers s.type, (s.formatted.getD o 0).toNat ≤ s.strings.length

def structTableLength (m : Mem) (se : ℕ) : ℕ := readLE m (se + 22) 2
def structTableAddress (m : Mem) (se : ℕ) : ℕ := readLE m (se + 24) 4
def structCount (m : Mem) (se : ℕ) : ℕ := readLE m (se + 28) 2

/-- The tables at the entry point `se` consist of the stated number of structures, whose strings
exist, and have the stated length. -/
def Readable (m : Mem) (se : ℕ) : Prop :=
  ∃ structures, walk (structCount m se)
      (slice m (structTableAddress m se) (structTableLength m se)) = some (structures, []) ∧
    structures.length = structCount m se ∧ ∀ s ∈ structures, s.Valid

lemma walk_end {s : Structure} (h : readStructure bs = some (s, rest))
    (hs : s.type = SMBIOS_END_OF_TABLE) : walk (k + 1) bs = some ([s], rest) := by
  rw [walk, h, Option.bind_some]
  exact if_pos hs

lemma walk_next {s : Structure} (h : readStructure bs = some (s, rest))
    (hs : s.type ≠ SMBIOS_END_OF_TABLE) :
    walk (k + 1) bs = (walk k rest).map fun r => (s :: r.1, r.2) := by
  rw [walk, h, Option.bind_some]
  exact if_neg hs

/-! ### What is behind does not matter -/

lemma splitStrings_append (h : splitStrings cur bs = some (ss, rest)) :
    splitStrings cur (bs ++ more) = some (ss, rest ++ more) := by
  induction bs generalizing cur ss with
  | nil => cases h
  | cons b bs ih =>
    rw [List.cons_append, splitStrings]
    rw [splitStrings] at h
    split_ifs at h ⊢ with hb hcur
    · exact ih h
    · cases h
      rfl
    · obtain ⟨r, hr, hr'⟩ := Option.map_eq_some_iff.mp h
      cases hr'
      rw [ih hr]
      rfl

lemma readStringSet_append (h : readStringSet bs = some (ss, rest)) :
    readStringSet (bs ++ more) = some (ss, rest ++ more) := by
  cases bs with
  | nil => cases h
  | cons b bs =>
    rw [List.cons_append, readStringSet]
    rw [readStringSet] at h
    by_cases hb : b ≠ 0
    · rw [if_pos hb] at h ⊢
      exact splitStrings_append h
    · rw [if_neg hb] at h ⊢
      cases bs with
      | nil => simp at h
      | cons c bs =>
        split_ifs at h with hc
        cases h
        exact if_pos hc

lemma readStructure_append {s : Structure} (h : readStructure bs = some (s, rest)) :
    readStructure (bs ++ more) = some (s, rest ++ more) := by
  unfold readStructure at h ⊢
  by_cases hlength : 4 ≤ (bs.getD 1 0).toNat ∧ (bs.getD 1 0).toNat ≤ bs.length
  · have hsame : (bs ++ more).getD 1 0 = bs.getD 1 0 :=
      List.getD_append _ _ _ _ (by omega)
    rw [if_pos hlength] at h
    obtain ⟨r, hr, hr'⟩ := Option.map_eq_some_iff.mp h
    cases hr'
    rw [hsame, if_pos ⟨hlength.1, by rw [List.length_append]; omega⟩,
      List.drop_append_of_le_length hlength.2, List.take_append_of_le_length hlength.2,
      readStringSet_append hr]
    rfl
  · rw [if_neg hlength] at h
    cases h

/-- A walk that succeeds on a part of the bytes finds the same structures in all of them. -/
lemma walk_append {structures : List Structure} (h : walk k bs = some (structures, rest)) :
    walk k (bs ++ more) = some (structures, rest ++ more) := by
  induction k generalizing bs structures with
  | zero => cases h
  | succ k ih =>
    rw [walk] at h ⊢
    obtain ⟨r, hr, h⟩ := Option.bind_eq_some_iff.mp h
    rw [readStructure_append hr, Option.bind_some]
    dsimp only
    split_ifs at h ⊢ with hend
    · cases h
      rfl
    · obtain ⟨r', hr', h⟩ := Option.map_eq_some_iff.mp h
      cases h
      rw [ih hr']
      rfl

/-! ### Reading strings back -/

lemma splitStrings_zero_free {s : List UInt8} (hs : 0 ∉ s) :
    splitStrings cur (s ++ bs) = splitStrings (cur ++ s) bs := by
  induction s generalizing cur with
  | nil => simp
  | cons b s ih =>
    rw [List.mem_cons, not_or] at hs
    rw [List.cons_append, splitStrings, if_pos (Ne.symm hs.1), ih hs.2, List.append_assoc]
    rfl

lemma splitStrings_packed (rest : List UInt8) {ss : List CString} (hss : ∀ s ∈ ss, s.1 ≠ []) :
    splitStrings [] (packed ss ++ rest) = some (ss.map (·.1), rest) := by
  induction ss with
  | nil => rfl
  | cons s ss ih =>
    rw [List.forall_mem_cons] at hss
    rw [packed_cons, List.append_assoc, splitStrings_zero_free s.2, List.nil_append,
      List.cons_append, splitStrings, if_neg (by simp), if_neg hss.1, ih hss.2]
    rfl

/-- A set that is not empty is read back. -/
theorem readStringSet_packed {ss : List CString} (hss : ∀ s ∈ ss, s.1 ≠ []) (hne : ss ≠ []) :
    readStringSet (packed ss ++ rest) = some (ss.map (·.1), rest) := by
  obtain ⟨s, ss, rfl⟩ := List.exists_cons_of_ne_nil hne
  have hsplit := splitStrings_packed rest hss
  obtain ⟨b, r, hb⟩ := List.exists_cons_of_ne_nil (hss s List.mem_cons_self)
  have hzero : b ≠ 0 := fun h => s.2 (by rw [hb, h]; exact List.mem_cons_self)
  rw [packed_cons, hb, List.cons_append, List.cons_append] at hsplit ⊢
  rw [splitStrings, if_pos hzero] at hsplit
  rw [readStringSet, if_pos hzero]
  exact hsplit

/-- A set without strings lacks one of its zero bytes. -/
lemma readStringSet_packed_nil {b : UInt8} (hb : b ≠ 0) :
    readStringSet (packed [] ++ b :: rest) = none := by
  simp [readStringSet, hb]

end ApuBios.Smbios
