import ApuBios.Library.Memory

/-!
# Strings that end with a zero byte

The functions of `string.h` on strings in memory, and lists of strings that are stored one after the
other and ended by an empty one.
-/

/-- A string without a zero byte. -/
abbrev CString := {s : List UInt8 // 0 ∉ s}

namespace CString

/-- The string at the front of an array of characters. -/
def ofBytes (bytes : List UInt8) : CString :=
  ⟨bytes.takeWhile (· ≠ 0), fun h => by
    simpa using List.all_eq_true.mp (List.all_takeWhile (p := (· ≠ 0)) (l := bytes)) _ h⟩

def ofString (s : String) : CString := ofBytes (s.toList.map fun c => UInt8.ofNat c.toNat)

end CString

namespace Mem

variable {m m' : Mem} {p q n : ℕ} {bs bs' : List UInt8}

/-- The bytes `bs` lie at `p`. -/
def Holds (m : Mem) : ℕ → List UInt8 → Prop
  | _, [] => True
  | p, b :: bs => m p = b ∧ Holds m (p + 1) bs

/-- The `n` bytes at `p`. -/
def slice (m : Mem) (p : ℕ) : ℕ → List UInt8
  | 0 => []
  | n + 1 => m p :: slice m (p + 1) n

@[simp] lemma holds_nil : Holds m p [] := trivial

@[simp] lemma holds_cons {b : UInt8} : Holds m p (b :: bs) ↔ m p = b ∧ Holds m (p + 1) bs :=
  Iff.rfl

@[simp] lemma holds_append : Holds m p (bs ++ bs') ↔ Holds m p bs ∧ Holds m (p + bs.length) bs' := by
  induction bs generalizing p with
  | nil => simp
  | cons b bs ih =>
    rw [List.cons_append, holds_cons, ih, holds_cons, List.length_cons, and_assoc,
      Nat.add_right_comm, Nat.add_assoc]

lemma Holds.congr (h : Holds m p bs) (hm : ∀ a, p ≤ a → a < p + bs.length → m' a = m a) :
    Holds m' p bs := by
  induction bs generalizing p with
  | nil => trivial
  | cons b bs ih =>
    rw [List.length_cons] at hm
    exact ⟨(hm p le_rfl (by omega)).trans h.1, ih h.2 fun a ha ha' => hm a (by omega) (by omega)⟩

lemma holds_writeBytes : Holds (writeBytes m p bs) p bs := by
  have h : ∀ k ≤ bs.length, Holds (writeBytes m p bs) (p + k) (bs.drop k) := fun k hk => by
    induction hd : bs.length - k generalizing k with
    | zero => rw [List.drop_eq_nil_of_le (by omega)]; trivial
    | succ d ih =>
      rw [List.drop_eq_getElem_cons (by omega)]
      exact ⟨writeBytes_read (by omega), ih (k + 1) (by omega) (by omega)⟩
  exact h 0 (Nat.zero_le _)

@[simp] lemma length_slice : (slice m p n).length = n := by
  induction n generalizing p with
  | zero => rfl
  | succ n ih => rw [slice, List.length_cons, ih]

lemma getElem_slice {i : ℕ} (h : i < (slice m p n).length) : (slice m p n)[i] = m (p + i) := by
  induction n generalizing p i with
  | zero => simp at h
  | succ n ih =>
    cases i with
    | zero => rfl
    | succ i =>
      rw [length_slice] at h
      refine (ih (p := p + 1) (i := i) (by rw [length_slice]; omega)).trans ?_
      rw [Nat.add_assoc, Nat.add_comm 1 i]

lemma slice_add {k : ℕ} : slice m p (n + k) = slice m p n ++ slice m (p + n) k := by
  induction n generalizing p with
  | zero => rw [Nat.zero_add, slice, List.nil_append, Nat.add_zero]
  | succ n ih =>
    rw [Nat.add_right_comm, slice, slice, ih, List.cons_append, Nat.add_assoc, Nat.add_comm 1 n]

lemma slice_congr (h : ∀ a, p ≤ a → a < p + n → m' a = m a) : slice m' p n = slice m p n := by
  induction n generalizing p with
  | zero => rfl
  | succ n ih => rw [slice, slice, h p le_rfl (by omega), ih fun a ha ha' => h a (by omega) (by omega)]

lemma Holds.slice_eq (h : Holds m p bs) : slice m p bs.length = bs := by
  induction bs generalizing p with
  | nil => rfl
  | cons b bs ih => rw [List.length_cons, slice, h.1, ih h.2]

/-- Bytes that have been copied are the bytes that were there. -/
lemma holds_slice (h : ∀ i < n, m' (q + i) = m (p + i)) : Holds m' q (slice m p n) := by
  induction n generalizing p q with
  | zero => trivial
  | succ n ih =>
    refine ⟨h 0 (Nat.succ_pos n), ih fun i hi => ?_⟩
    have hnext := h (i + 1) (by omega)
    rwa [Nat.add_comm i 1, ← Nat.add_assoc, ← Nat.add_assoc] at hnext

/-! ### The functions of `string.h` -/

/-- The number of characters before the zero byte. -/
def strlen (m : Mem) : ℕ → ℕ → Option ℕ
  | 0, _ => none
  | fuel + 1, p => if m p = 0 then some 0 else (strlen m fuel (p + 1)).map (· + 1)

/-- The difference of the first characters that differ. -/
def strcmp (m : Mem) : ℕ → List UInt8 → ℤ
  | p, [] => (m p).toInt8.toInt
  | p, c :: s =>
    let r := (m p).toInt8.toInt - c.toInt8.toInt
    if r = 0 then strcmp m (p + 1) s else r

def strcpy (m : Mem) (p : ℕ) (s : CString) : Mem := writeBytes m p (s.1 ++ [0])

lemma strlen_eq {fuel : ℕ} {s : List UInt8} (hs : 0 ∉ s) (h : Holds m p (s ++ [0]))
    (hfuel : s.length < fuel) : strlen m fuel p = some s.length := by
  induction s generalizing p fuel with
  | nil =>
    obtain ⟨fuel, rfl⟩ : ∃ k, fuel = k + 1 := ⟨fuel - 1, by omega⟩
    exact if_pos h.1
  | cons b s ih =>
    rw [List.length_cons] at hfuel
    obtain ⟨fuel, rfl⟩ : ∃ k, fuel = k + 1 := ⟨fuel - 1, by omega⟩
    rw [List.mem_cons, not_or] at hs
    rw [strlen, if_neg (h.1 ▸ Ne.symm hs.1), ih hs.2 h.2 (by omega)]
    rfl

/-- The characters that are counted are not zero, and the next one is. -/
lemma strlen_eq_some {fuel k : ℕ} (h : strlen m fuel p = some k) :
    m (p + k) = 0 ∧ ∀ i < k, m (p + i) ≠ 0 := by
  induction fuel generalizing p k with
  | zero => cases h
  | succ fuel ih =>
    rw [strlen] at h
    split_ifs at h with hzero
    · cases h
      exact ⟨hzero, fun i hi => absurd hi (Nat.not_lt_zero i)⟩
    · obtain ⟨j, hj, rfl⟩ := Option.map_eq_some_iff.1 h
      obtain ⟨hend, hbefore⟩ := ih hj
      refine ⟨by rwa [Nat.add_comm j 1, ← Nat.add_assoc], fun i hi => ?_⟩
      cases i with
      | zero => exact hzero
      | succ i =>
        have hne := hbefore i (by omega)
        rwa [Nat.add_assoc, Nat.add_comm 1 i] at hne

lemma strlen_of_first {fuel k : ℕ} (hend : m (p + k) = 0) (hbefore : ∀ i < k, m (p + i) ≠ 0)
    (hfuel : k < fuel) : strlen m fuel p = some k := by
  have hbytes : Holds m p (slice m p k ++ [0]) := by
    rw [holds_append, length_slice]
    exact ⟨holds_slice fun _ _ => rfl, hend, trivial⟩
  have hchars : (0 : UInt8) ∉ slice m p k := by
    intro hmem
    obtain ⟨i, hi, hzero⟩ := List.getElem_of_mem hmem
    rw [getElem_slice] at hzero
    rw [length_slice] at hi
    exact hbefore i hi hzero
  have hlen := strlen_eq hchars hbytes (by rwa [length_slice])
  rwa [length_slice] at hlen

private lemma toInt8_sub_eq_zero {b c : UInt8} : b.toInt8.toInt - c.toInt8.toInt = 0 ↔ b = c := by
  rw [sub_eq_zero, Int8.toInt_inj]
  exact ⟨fun h => by simpa using congrArg Int8.toUInt8 h, congrArg _⟩

/-- The strings are equal exactly if the memory holds the whole string and its zero byte. -/
lemma strcmp_eq_zero_iff_holds {t : List UInt8} (ht : 0 ∉ t) :
    strcmp m p t = 0 ↔ Holds m p (t ++ [0]) := by
  induction t generalizing p with
  | nil =>
    have hzero := toInt8_sub_eq_zero (b := m p) (c := 0)
    simpa [strcmp] using hzero
  | cons c t ih =>
    rw [List.mem_cons, not_or] at ht
    rw [strcmp, List.cons_append, holds_cons]
    by_cases hc : m p = c
    · rw [if_pos (toInt8_sub_eq_zero.mpr hc), ih ht.2]
      exact (and_iff_right hc).symm
    · rw [if_neg (toInt8_sub_eq_zero.not.mpr hc), toInt8_sub_eq_zero]
      exact iff_of_false hc fun h => hc h.1

lemma strcmp_eq_zero {s t : List UInt8} (hs : 0 ∉ s) (ht : 0 ∉ t) (h : Holds m p (s ++ [0])) :
    strcmp m p t = 0 ↔ s = t := by
  induction s generalizing p t with
  | nil =>
    have hp : m p = 0 := h.1
    cases t with
    | nil => simp [strcmp, hp]
    | cons c t =>
      have hc : (0 : UInt8) ≠ c := fun hc => ht (hc ▸ List.mem_cons_self)
      rw [strcmp, hp, if_neg (toInt8_sub_eq_zero.not.mpr hc), toInt8_sub_eq_zero]
      simp [hc]
  | cons b s ih =>
    have hp : m p = b := h.1
    rw [List.mem_cons, not_or] at hs
    cases t with
    | nil =>
      have hzero := toInt8_sub_eq_zero (b := b) (c := 0)
      rw [strcmp, hp]
      simpa using hzero.not.mpr (Ne.symm hs.1)
    | cons c t =>
      rw [List.mem_cons, not_or] at ht
      rw [strcmp, hp]
      simp only [List.cons.injEq]
      by_cases hbc : b = c
      · rw [if_pos (toInt8_sub_eq_zero.mpr hbc), ih hs.2 ht.2 h.2]
        simp [hbc]
      · rw [if_neg (toInt8_sub_eq_zero.not.mpr hbc), toInt8_sub_eq_zero]
        simp [hbc]

/-! ### Lists of strings -/

/-- The strings one after the other, and an empty one behind them. -/
def packed : List CString → List UInt8
  | [] => [0]
  | s :: ss => s.1 ++ 0 :: packed ss

@[simp] lemma packed_nil : packed [] = [0] := rfl

@[simp] lemma packed_cons {s : CString} {ss : List CString} :
    packed (s :: ss) = s.1 ++ 0 :: packed ss := rfl

lemma length_packed_cons {s : CString} {ss : List CString} :
    (packed (s :: ss)).length = s.1.length + 1 + (packed ss).length := by
  rw [packed_cons, List.length_append, List.length_cons]
  omega

lemma length_packed_pos (ss : List CString) : 0 < (packed ss).length := by
  cases ss <;> simp

lemma holds_packed_cons {s : CString} {ss : List CString} : Holds m p (packed (s :: ss)) ↔
    Holds m p (s.1 ++ [0]) ∧ Holds m (p + s.1.length + 1) (packed ss) := by
  rw [packed_cons, List.append_cons, holds_append, List.length_append, List.length_singleton,
    Nat.add_assoc]

/-- A set that starts with a string does not start with a zero byte. -/
lemma ne_zero_of_holds {s : CString} (hs : s.1 ≠ []) (h : Holds m p (s.1 ++ [0])) : m p ≠ 0 := by
  obtain ⟨b, r, hb⟩ := List.exists_cons_of_ne_nil hs
  rw [hb] at h
  intro hzero
  apply s.2
  rw [hb, ← hzero, h.1]
  exact List.mem_cons_self

end Mem
