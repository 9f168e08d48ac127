import ApuBios.Arch.Smbios.Basic

/-!
# String sets

What the functions on string sets compute, and how a reader splits a string set into its strings.
-/

namespace ApuBios.Smbios

open Mem

variable {m : Mem} {p i fuel : ℕ} {ss : List CString} {s t : CString}

/-! ### Adding a string -/

/-- A string is added behind the others, unless it is empty or there already. -/
def addString (ss : List CString) (s : CString) : List CString :=
  if s.1 = [] ∨ s ∈ ss then ss else ss ++ [s]

/-- The number that a string has in the set once it is added. -/
def number (ss : List CString) (s : CString) : ℕ :=
  if s.1 = [] then 0 else (addString ss s).idxOf s + 1

lemma mem_addString (hs : s.1 ≠ []) : s ∈ addString ss s := by
  unfold addString
  split_ifs with h
  · exact h.resolve_left hs
  · simp

lemma length_le_addString : ss.length ≤ (addString ss s).length := by
  unfold addString
  split_ifs
  · exact le_rfl
  · simp

lemma number_le : number ss s ≤ (addString ss s).length := by
  unfold number
  split_ifs with hs
  · exact Nat.zero_le _
  · exact List.idxOf_lt_length_iff.mpr (mem_addString hs)

lemma addString_eq_nil : addString ss s = [] ↔ ss = [] ∧ s.1 = [] := by
  unfold addString
  split_ifs with h
  · constructor
    · rintro rfl
      exact ⟨rfl, h.resolve_right List.not_mem_nil⟩
    · exact And.left
  · rw [not_or] at h
    simp [h.1]

lemma forall_mem_addString (h : ∀ t ∈ ss, t.1 ≠ []) : ∀ t ∈ addString ss s, t.1 ≠ [] := by
  unfold addString
  split_ifs with hs
  · exact h
  · intro t ht
    rw [not_or] at hs
    rcases List.mem_append.mp ht with ht | ht
    · exact h t ht
    · rw [List.mem_singleton.mp ht]
      exact hs.1

private lemma addString_cons (hs : s.1 ≠ []) (hne : t ≠ s) :
    addString (t :: ss) s = t :: addString ss s := by
  unfold addString
  simp only [hs, List.mem_cons, Ne.symm hne, false_or, List.cons_append]
  split_ifs <;> rfl

private lemma update_update_strcpy :
    Function.update (Function.update (strcpy m p s) (p + s.1.length) 0) (p + s.1.length + 1) 0 =
      writeBytes m p (packed [s]) := by
  funext a
  simp only [strcpy, packed_cons, packed_nil, writeBytes, Function.update_apply]
  split_ifs with h₁ h₂ h₃ h₄ h₅
  · simp [h₁, Nat.add_assoc]
  · omega
  · simp [h₃]
  · omega
  · congr 1
    by_cases hlt : a - p < s.1.length
    · simp [List.getElem?_append_left hlt]
    · rw [List.getElem?_eq_none (by simp; omega), List.getElem?_eq_none (by simp; omega)]
  · rfl

/-- The loop finds the string, or the end of the set, where it appends it. -/
lemma addStringLoop_spec (h : Holds m p (packed ss)) (hss : ∀ t ∈ ss, t.1 ≠ []) (hs : s.1 ≠ [])
    (hfuel : (packed ss).length ≤ fuel) :
    ∃ m', addStringLoop s fuel m p i = some (m', i + (addString ss s).idxOf s) ∧
      Holds m' p (packed (addString ss s)) ∧ ∀ a < p, m' a = m a := by
  induction ss generalizing p i fuel with
  | nil =>
    obtain ⟨fuel, rfl⟩ : ∃ k, fuel = k + 1 := ⟨fuel - 1, by simp at hfuel; omega⟩
    have hadd : addString [] s = [s] := by simp [addString, hs]
    refine ⟨writeBytes m p (packed [s]), ?_, ?_, fun a ha => writeBytes_frame (Or.inl ha)⟩
    · rw [addStringLoop, if_pos h.1, hadd, List.idxOf_cons_self, ← update_update_strcpy]
      rfl
    · rw [hadd]
      exact holds_writeBytes
  | cons t ss ih =>
    rw [List.forall_mem_cons] at hss
    rw [length_packed_cons] at hfuel
    obtain ⟨fuel, rfl⟩ : ∃ k, fuel = k + 1 := ⟨fuel - 1, by omega⟩
    have hpos := length_packed_pos ss
    obtain ⟨ht, h⟩ := holds_packed_cons.mp h
    have hp := ne_zero_of_holds hss.1 ht
    rw [addStringLoop, if_neg hp]
    by_cases heq : t = s
    · subst heq
      have hadd : addString (t :: ss) t = t :: ss := if_pos (Or.inr List.mem_cons_self)
      rw [if_pos ((strcmp_eq_zero t.2 t.2 ht).mpr rfl), hadd, List.idxOf_cons_self]
      exact ⟨m, rfl, holds_packed_cons.mpr ⟨ht, h⟩, fun _ _ => rfl⟩
    · rw [if_neg fun hcmp => heq (Subtype.ext ((strcmp_eq_zero t.2 s.2 ht).mp hcmp)),
        strlen_eq t.2 ht (by omega), Option.bind_eq_bind, Option.bind_some]
      have hle : (packed ss).length ≤ fuel := by omega
      obtain ⟨m', hrun, hset, hframe⟩ := ih (i := i + 1) h hss.2 hle
      refine ⟨m', ?_, ?_, fun a ha => hframe a (by omega)⟩
      · rw [hrun, addString_cons hs heq, List.idxOf_cons_ne _ heq, Nat.add_assoc i, Nat.add_comm 1]
      · rw [addString_cons hs heq, holds_packed_cons]
        refine ⟨ht.congr fun a _ ha => hframe a ?_, hset⟩
        rwa [List.length_append, List.length_singleton, ← Nat.add_assoc] at ha

/-- The helper adds the string and returns its number. -/
theorem smbiosAddString_spec (h : Holds m p (packed ss)) (hss : ∀ t ∈ ss, t.1 ≠ [])
    (hfuel : (packed ss).length ≤ fuel) :
    ∃ m', smbiosAddString fuel m p s = some (m', number ss s) ∧
      Holds m' p (packed (addString ss s)) ∧ ∀ a < p, m' a = m a := by
  unfold smbiosAddString number
  by_cases hs : s.1 = []
  · rw [if_pos hs, if_pos hs, addString, if_pos (Or.inl hs)]
    exact ⟨m, rfl, h, fun _ _ => rfl⟩
  · rw [if_neg hs, if_neg hs, Nat.add_comm _ 1]
    exact addStringLoop_spec h hss hs hfuel

/-! ### The length of a set -/

lemma stringTableLenLoop_eq {len : ℕ} (h : Holds m p (packed ss)) (hss : ∀ t ∈ ss, t.1 ≠ [])
    (hfuel : (packed ss).length ≤ fuel) :
    (stringTableLenLoop m fuel p len).map (· + 1) = some (len + (packed ss).length) := by
  induction ss generalizing p len fuel with
  | nil =>
    obtain ⟨fuel, rfl⟩ : ∃ k, fuel = k + 1 := ⟨fuel - 1, by simp at hfuel; omega⟩
    rw [stringTableLenLoop, if_pos h.1]
    rfl
  | cons t ss ih =>
    rw [List.forall_mem_cons] at hss
    rw [length_packed_cons] at hfuel
    obtain ⟨fuel, rfl⟩ : ∃ k, fuel = k + 1 := ⟨fuel - 1, by omega⟩
    have hpos := length_packed_pos ss
    obtain ⟨ht, h⟩ := holds_packed_cons.mp h
    have hp := ne_zero_of_holds hss.1 ht
    rw [stringTableLenLoop, if_neg hp, strlen_eq t.2 ht (by omega), Option.map_some,
      Option.bind_eq_bind, Option.bind_some, ← Nat.add_assoc, ih h hss.2 (by omega), length_packed_cons,
      Nat.add_assoc len]

/-- The helper counts the strings, their zero bytes, and one zero byte behind them. -/
theorem smbiosStringTableLen_eq (h : Holds m p (packed ss)) (hss : ∀ t ∈ ss, t.1 ≠ [])
    (hfuel : (packed ss).length ≤ fuel) :
    smbiosStringTableLen fuel m p = some (packed ss).length := by
  rw [smbiosStringTableLen, stringTableLenLoop_eq h hss hfuel, Nat.zero_add]

end ApuBios.Smbios
