import ApuBios.Arch.Smbios.Reader
import ApuBios.Arch.Smbios.StringSet

/-!
# Writing one structure

A structure is written member by member. At every moment, what is in memory is a formatted area and
the set of the strings that were added so far.
-/

namespace ApuBios.Smbios

open Mem

variable {d : Definition} {m m₀ : Mem} {t fuel handle : ℕ} {ss : List CString}

/-! ### The strings of a structure -/

def Member.string? : Member → Option CString
  | .value .. => none
  | .string _ s => some s

/-- The strings that are added, in their order. -/
def Definition.strings (d : Definition) : List CString := d.members.filterMap Member.string?

def Definition.stringSet (d : Definition) : List CString := d.strings.foldl addString []

/-- The length that is returned. -/
def Definition.length (d : Definition) : ℕ := d.size - 2 + (packed d.stringSet).length

lemma foldl_addString_eq_nil {new : List CString} :
    new.foldl addString ss = [] ↔ ss = [] ∧ ∀ s ∈ new, s.1 = [] := by
  induction new generalizing ss with
  | nil => simp
  | cons s new ih => rw [List.foldl_cons, ih, addString_eq_nil, List.forall_mem_cons, and_assoc]

lemma stringSet_eq_nil : d.stringSet = [] ↔ ∀ s ∈ d.strings, s.1 = [] := by
  simp [Definition.stringSet, foldl_addString_eq_nil]

private lemma length_packed_concat {s : CString} :
    (packed (ss ++ [s])).length = (packed ss).length + (s.1.length + 1) := by
  induction ss with
  | nil => rw [List.nil_append, length_packed_cons, packed_nil, Nat.add_comm]
  | cons t ss ih =>
    rw [List.cons_append, length_packed_cons, length_packed_cons, ih]
    omega

lemma length_packed_le_addString {s : CString} :
    (packed ss).length ≤ (packed (addString ss s)).length := by
  unfold addString
  split_ifs
  · exact le_rfl
  · rw [length_packed_concat]
    omega

lemma length_packed_le_foldl {new : List CString} :
    (packed ss).length ≤ (packed (new.foldl addString ss)).length := by
  induction new generalizing ss with
  | nil => exact le_rfl
  | cons s new ih => exact length_packed_le_addString.trans ih

/-! ### Members -/

/-- The member lies in the formatted area, and a value is not stored where a number belongs. -/
def Member.Fits (size : ℕ) (numbers : List ℕ) : Member → Prop
  | .value offset width _ => 4 ≤ offset ∧ offset + width ≤ size - 2 ∧
      ∀ o ∈ numbers, o < offset ∨ offset + width ≤ o
  | .string offset _ => 4 ≤ offset ∧ offset < size - 2

structure Definition.Fits (d : Definition) : Prop where
  type_lt : d.type < SMBIOS_END_OF_TABLE
  size_ge : 6 ≤ d.size
  size_lt : d.size - 2 < 256
  inside : ∀ o ∈ stringMembers d.type, 4 ≤ o ∧ o < d.size - 2
  members : ∀ member ∈ d.members, member.Fits d.size (stringMembers d.type)

/-- What is in memory from `t` on, once the strings `ss` are added. -/
structure Written (d : Definition) (t : ℕ) (m₀ m : Mem) (ss : List CString) : Prop where
  frame : ∀ a < t, m a = m₀ a
  type : (m t).toNat = d.type
  length : (m (t + 1)).toNat = d.size - 2
  set : Holds m (t + d.size - 2) (packed ss)
  nonempty : ∀ s ∈ ss, s.1 ≠ []
  numbers : ∀ o ∈ stringMembers d.type, (m (t + o)).toNat ≤ ss.length

lemma writeLE_one {p v : ℕ} : (writeLE m p 1 v p).toNat = v % 256 := by
  have h := readLE_writeLE_same (m := m) (p := p) (n := 1) (v := v)
  simpa [readLE] using h

/-- The bytes outside the members `type`, `handle` and `length` are cleared. -/
lemma header_eq_zero {size type length a : ℕ} (h : t + 4 ≤ a) (h' : a < t + size) :
    writeLE (writeLE (writeLE (memset m t 0 size) t 1 type) (t + 2) 2 handle) (t + 1) 1 length a =
      0 := by
  rw [writeLE_frame (Or.inr (by omega)), writeLE_frame (Or.inr (by omega)),
    writeLE_frame (Or.inr (by omega))]
  exact if_pos ⟨by omega, h'⟩

lemma written_header (m₀ : Mem) (t handle : ℕ) (hd : d.Fits) :
    Written d t m₀ (writeLE (writeLE (writeLE (memset m₀ t 0 d.size) t 1 d.type) (t + 2) 2 handle)
      (t + 1) 1 (d.size - 2)) [] where
  frame a ha := by
    rw [writeLE_frame (Or.inl (by omega)), writeLE_frame (Or.inl (by omega)),
      writeLE_frame (Or.inl ha), memset_frame (Or.inl ha)]
  type := by
    have htype : d.type < 127 := hd.type_lt
    rw [writeLE_frame (Or.inl (by omega)), writeLE_frame (Or.inl (by omega)), writeLE_one,
      Nat.mod_eq_of_lt (by omega)]
  length := by rw [writeLE_one, Nat.mod_eq_of_lt hd.size_lt]
  set := by
    have hsize := hd.size_ge
    exact ⟨header_eq_zero (by omega) (by omega), trivial⟩
  nonempty s hs := by cases hs
  numbers o ho := by
    have hinside := hd.inside o ho
    rw [header_eq_zero (by omega) (by omega)]
    rfl

/-- A value leaves the type, the length, the numbers and the strings as they are. -/
lemma Written.value (h : Written d t m₀ m ss) (hd : d.Fits) {offset width v : ℕ}
    (hfits : (Member.value offset width v).Fits d.size (stringMembers d.type)) :
    Written d t m₀ (writeLE m (t + offset) width v) ss where
  frame a ha := (writeLE_frame (Or.inl (by omega))).trans (h.frame a ha)
  type := by
    rw [writeLE_frame (Or.inl (by have := hfits.1; omega))]
    exact h.type
  length := by
    rw [writeLE_frame (Or.inl (by have := hfits.1; omega))]
    exact h.length
  set := h.set.congr fun a ha _ => writeLE_frame (Or.inr (by
    have := hfits.2.1
    have := hd.size_ge
    omega))
  nonempty := h.nonempty
  numbers o ho := by
    have hdisjoint := hfits.2.2 o ho
    rw [writeLE_frame (by omega)]
    exact h.numbers o ho

/-- A string is added, and its number is stored. -/
lemma Written.string (h : Written d t m₀ m ss) (hd : d.Fits) {offset : ℕ} {s : CString}
    (hfits : (Member.string offset s).Fits d.size (stringMembers d.type))
    (hfuel : (packed ss).length ≤ fuel) :
    ∃ m', writeMember fuel t d.size m (.string offset s) = some m' ∧
      Written d t m₀ m' (addString ss s) := by
  obtain ⟨m', hrun, hset, hframe⟩ := smbiosAddString_spec (s := s) h.set h.nonempty hfuel
  have hsize := hd.size_ge
  have hlow := hfits.1
  have hhigh := hfits.2
  refine ⟨writeLE m' (t + offset) 1 (number ss s), ?_, ?_⟩
  · rw [writeMember, hrun]
    rfl
  · constructor
    · intro a ha
      rw [writeLE_frame (Or.inl (by omega)), hframe a (by omega)]
      exact h.frame a ha
    · rw [writeLE_frame (Or.inl (by omega)), hframe t (by omega)]
      exact h.type
    · rw [writeLE_frame (Or.inl (by omega)), hframe (t + 1) (by omega)]
      exact h.length
    · exact hset.congr fun a ha _ => writeLE_frame (Or.inr (by omega))
    · exact forall_mem_addString h.nonempty
    · intro o ho
      have hinside := hd.inside o ho
      by_cases hoffset : o = offset
      · rw [hoffset, writeLE_one]
        exact (Nat.mod_le _ _).trans number_le
      · rw [writeLE_frame (by omega), hframe (t + o) (by omega)]
        exact (h.numbers o ho).trans length_le_addString

/-- All members, one after the other. -/
lemma Written.members (h : Written d t m₀ m ss) (hd : d.Fits) {members : List Member}
    (hfits : ∀ member ∈ members, member.Fits d.size (stringMembers d.type))
    (hfuel : (packed ((members.filterMap Member.string?).foldl addString ss)).length ≤ fuel) :
    ∃ m', members.foldlM (writeMember fuel t d.size) m = some m' ∧
      Written d t m₀ m' ((members.filterMap Member.string?).foldl addString ss) := by
  induction members generalizing m ss with
  | nil => exact ⟨m, rfl, h⟩
  | cons member members ih =>
    rw [List.forall_mem_cons] at hfits
    cases member with
    | value offset width v =>
      obtain ⟨m', hrun, h'⟩ := ih (h.value hd hfits.1) hfits.2 hfuel
      exact ⟨m', hrun, h'⟩
    | string offset s =>
      have hlength := length_packed_le_addString.trans length_packed_le_foldl |>.trans hfuel
      obtain ⟨m₁, hrun₁, h₁⟩ := h.string hd hfits.1 hlength
      obtain ⟨m', hrun, h'⟩ := ih h₁ hfits.2 hfuel
      exact ⟨m', by rw [List.foldlM_cons, hrun₁]; exact hrun, h'⟩

/-- What a structure with strings leaves in memory, and the length it returns. -/
theorem writeStructure_spec (m : Mem) (t handle : ℕ) (hd : d.Fits)
    (hfuel : (packed d.stringSet).length ≤ fuel) :
    ∃ m', writeStructure fuel m t handle d = some (m', d.length) ∧
      Written d t m m' d.stringSet := by
  obtain ⟨m', hrun, h⟩ := (written_header m t handle hd).members hd hd.members hfuel
  refine ⟨m', ?_, h⟩
  have hlen := smbiosStringTableLen_eq h.set h.nonempty hfuel
  simp only [writeStructure, hrun, Option.bind_eq_bind, Option.bind_some]
  rw [hlen, h.length]
  rfl

end ApuBios.Smbios
