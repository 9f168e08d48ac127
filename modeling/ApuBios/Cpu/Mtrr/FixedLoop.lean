import ApuBios.Cpu.Mtrr.Basic

/-!
# The loop over the fixed ranges

The inner loop stops where it reaches the end of an entry exactly. It does so if both ends of the
entry are between fixed ranges, or if they are at the same offset within ranges of one size.
-/

namespace ApuBios.Mtrr

open Memrange

variable {wrbackBits tag fuel begin end_ i j k n p q v : ℕ} {types : List ℕ}
  {desc : FixedMtrrDesc} {rest descs : List FixedMtrrDesc}

/-! ### The ranges -/

/-- The number of pages in the fixed range of a page. -/
def rangeSize (p : ℕ) : ℕ := if p < 0x80 then 16 else if p < 0xc0 then 4 else 1

/-- The fixed range of a page. -/
def rangeOf (p : ℕ) : ℕ :=
  if p < 0x80 then p / 16 else if p < 0xc0 then 8 + (p - 0x80) / 4 else 24 + (p - 0xc0)

/-- The first page of a fixed range. -/
def rangeStart (i : ℕ) : ℕ :=
  if i ≤ 8 then 16 * i else if i ≤ 24 then 0x80 + 4 * (i - 8) else 0xc0 + (i - 24)

/-- The descriptors from the one of a range on. -/
def descsAt (i : ℕ) : List FixedMtrrDesc :=
  if i < 8 then fixedMtrrDesc else if i < 24 then fixedMtrrDesc.drop 1
  else if i < 88 then fixedMtrrDesc.drop 2 else []

lemma fixedMtrrDesc_eq :
    fixedMtrrDesc = [⟨0, 0x80, 16, 0⟩, ⟨0x80, 0xc0, 4, 8⟩, ⟨0xc0, 0x100, 1, 24⟩] := rfl

lemma rangeStart_lt (h : i < j) : rangeStart i < rangeStart j := by
  unfold rangeStart
  split_ifs <;> omega

lemma rangeStart_le (h : i ≤ j) : rangeStart i ≤ rangeStart j := by
  rcases h.eq_or_lt with rfl | h
  · exact le_rfl
  · exact (rangeStart_lt h).le

lemma rangeStart_rangeOf_le (p : ℕ) : rangeStart (rangeOf p) ≤ p := by
  unfold rangeStart rangeOf
  split_ifs <;> omega

lemma lt_rangeStart_rangeOf (p : ℕ) : p < rangeStart (rangeOf p + 1) := by
  unfold rangeStart rangeOf
  split_ifs <;> omega

lemma rangeOf_lt (h : p < 0x100) : rangeOf p < 88 := by
  unfold rangeOf
  split_ifs <;> omega

lemma le_rangeOf (h : rangeStart i ≤ p) : i ≤ rangeOf p := by
  by_contra hlt
  have h₁ := lt_rangeStart_rangeOf p
  have h₂ := rangeStart_le (show rangeOf p + 1 ≤ i by omega)
  omega

/-- A page at the beginning of a range. -/
lemma rangeStart_of_dvd (h : rangeSize p ∣ p) : rangeStart (rangeOf p) = p := by
  unfold rangeSize at h
  unfold rangeStart rangeOf
  split_ifs at h ⊢ <;> omega

lemma rangeSize_rangeStart (i : ℕ) : rangeSize (rangeStart i) ∣ rangeStart i := by
  unfold rangeSize rangeStart
  split_ifs <;> omega

lemma seekDesc_eq (hp : p < 0x100) (hj : j ≤ rangeOf p) :
    seekDesc p (descsAt j) = some (descsAt (rangeOf p)) := by
  have hrange : rangeOf p < 8 ∧ p < 0x80 ∨ 8 ≤ rangeOf p ∧ rangeOf p < 24 ∧ 0x80 ≤ p ∧ p < 0xc0 ∨
      24 ≤ rangeOf p ∧ rangeOf p < 88 ∧ 0xc0 ≤ p := by
    unfold rangeOf
    split_ifs <;> omega
  simp only [descsAt, fixedMtrrDesc_eq, List.drop_succ_cons, List.drop_zero]
  rcases hrange with ⟨h, hp'⟩ | ⟨h, h', hp', hp''⟩ | ⟨h, h', hp'⟩
  · rw [if_pos (by omega), if_pos h, seekDesc, if_neg (by simp only; omega)]
  · rw [if_neg (show ¬rangeOf p < 8 by omega), if_pos h']
    split_ifs <;> first | omega | simp [seekDesc, show ¬0xc0 ≤ p by omega, show 0x80 ≤ p from hp']
  · rw [if_neg (show ¬rangeOf p < 8 by omega), if_neg (show ¬rangeOf p < 24 by omega), if_pos h']
    split_ifs <;> first
      | omega
      | simp [seekDesc, show ¬0x100 ≤ p by omega, hp', show 0x80 ≤ p by omega]

/-- The first descriptor, and what remains behind the range. -/
lemma descsAt_cons (hi : i < 88) : ∃ desc rest, descsAt i = desc :: rest ∧
    desc.step = rangeStart (i + 1) - rangeStart i ∧
    (if rangeStart (i + 1) = desc.end_ then rest else desc :: rest) = descsAt (i + 1) := by
  simp only [descsAt, fixedMtrrDesc_eq, List.drop_succ_cons, List.drop_zero]
  unfold rangeStart
  by_cases h₁ : i < 8
  · refine ⟨_, _, if_pos h₁, ?_, ?_⟩
    · split_ifs <;> simp only <;> omega
    · simp only
      split_ifs <;> first | rfl | (exfalso; omega)
  by_cases h₂ : i < 24
  · refine ⟨_, _, (if_neg h₁).trans (if_pos h₂), ?_, ?_⟩
    · split_ifs <;> simp only <;> omega
    · simp only
      split_ifs <;> first | rfl | (exfalso; omega)
  · refine ⟨_, _, (if_neg h₁).trans ((if_neg h₂).trans (if_pos hi)), ?_, ?_⟩
    · split_ifs <;> simp only <;> omega
    · simp only
      split_ifs <;> first | rfl | (exfalso; omega)

/-- The descriptor of a page, and the index that is computed with it. -/
lemma descsAt_rangeOf (hp : p < 0x100) : ∃ desc rest, descsAt (rangeOf p) = desc :: rest ∧
    desc.step = rangeSize p ∧ desc.rangeIndex + Word.sub 32 p desc.begin / desc.step = rangeOf p ∧
    rangeSize p ∣ desc.end_ := by
  have hlt := rangeOf_lt hp
  simp only [descsAt, fixedMtrrDesc_eq, List.drop_succ_cons, List.drop_zero]
  by_cases h₁ : p < 0x80
  · have hrange : rangeOf p = p / 16 := if_pos h₁
    rw [hrange, rangeSize, if_pos h₁]
    refine ⟨_, _, if_pos (by omega), rfl, ?_, by decide⟩
    simp only
    rw [Word.sub_eq (by omega) (by omega)]
    omega
  by_cases h₂ : p < 0xc0
  · have hrange : rangeOf p = 8 + (p - 0x80) / 4 := (if_neg h₁).trans (if_pos h₂)
    rw [hrange, rangeSize, if_neg h₁, if_pos h₂]
    refine ⟨_, _, (if_neg (by omega)).trans (if_pos (by omega)), rfl, ?_, by decide⟩
    simp only
    rw [Word.sub_eq (by omega) (by omega)]
  · have hrange : rangeOf p = 24 + (p - 0xc0) := (if_neg h₁).trans (if_neg h₂)
    rw [hrange, rangeSize, if_neg h₁, if_neg h₂]
    refine ⟨_, _, (if_neg (by omega)).trans ((if_neg (by omega)).trans (if_pos (by omega))), rfl, ?_,
      by decide⟩
    simp only
    rw [Word.sub_eq (by omega) (by omega), Nat.div_one]

/-! ### The inner loop -/

/-- The ranges from `i` on, `n` of them, have the type `v`. -/
def setTypes (v : ℕ) : ℕ → ℕ → List ℕ → List ℕ
  | _, 0, types => types
  | i, n + 1, types => setTypes v (i + 1) n (types.set i v)

@[simp] lemma length_setTypes : (setTypes v i n types).length = types.length := by
  induction n generalizing i types with
  | zero => rfl
  | succ n ih => rw [setTypes, ih, List.length_set]

lemma getElem?_setTypes (hin : i + n ≤ types.length) :
    (setTypes v i n types)[k]? = if i ≤ k ∧ k < i + n then some v else types[k]? := by
  induction n generalizing i types with
  | zero => rw [setTypes, if_neg (by omega)]
  | succ n ih =>
    rw [setTypes, ih (by rw [List.length_set]; omega), List.getElem?_set]
    split_ifs <;> first | rfl | (exfalso; omega)

lemma fixedLoop_end :
    fixedLoop wrbackBits tag end_ (fuel + 1) end_ i descs types = some (descs, types) := by
  rw [fixedLoop.eq_def]
  exact if_pos rfl

lemma fixedLoop_nil (h : begin ≠ end_) :
    fixedLoop wrbackBits tag end_ (fuel + 1) begin i [] types = none := by
  rw [fixedLoop.eq_def]
  exact if_neg h

lemma fixedLoop_cons (h : begin ≠ end_) (hi : i < 88) :
    fixedLoop wrbackBits tag end_ (fuel + 1) begin i (desc :: rest) types =
      fixedLoop wrbackBits tag end_ fuel (Word.add 32 begin desc.step) (i + 1)
        (if Word.add 32 begin desc.step = desc.end_ then rest else desc :: rest)
        (types.set i (fixedType wrbackBits tag)) := by
  rw [fixedLoop.eq_def]
  exact (if_neg h).trans (if_pos hi)

lemma fixedLoop_of_le (h : begin ≠ end_) (hi : 88 ≤ i) :
    fixedLoop wrbackBits tag end_ fuel begin i (desc :: rest) types = none := by
  cases fuel with
  | zero => rfl
  | succ fuel =>
    rw [fixedLoop.eq_def]
    exact (if_neg h).trans (if_neg (Nat.not_lt.mpr hi))

/-- More rounds do not change the result. -/
lemma fixedLoop_mono {res : List FixedMtrrDesc × List ℕ}
    (h : fixedLoop wrbackBits tag end_ n begin i descs types = some res) (hn : n ≤ k) :
    fixedLoop wrbackBits tag end_ k begin i descs types = some res := by
  induction n generalizing k begin i descs types with
  | zero => cases h
  | succ n ih =>
    obtain ⟨k, rfl⟩ : ∃ m, k = m + 1 := ⟨k - 1, by omega⟩
    by_cases hend : begin = end_
    · subst hend
      rw [fixedLoop_end] at h ⊢
      exact h
    · cases descs with
      | nil =>
        rw [fixedLoop_nil hend] at h
        cases h
      | cons desc rest =>
        by_cases hi : i < 88
        · rw [fixedLoop_cons hend hi] at h ⊢
          exact ih h (by omega)
        · rw [fixedLoop_of_le hend (by omega)] at h
          cases h

/-- From the beginning of a range to that of another one. -/
lemma fixedLoop_aligned (hik : i ≤ k) (hk : k ≤ 88) (hfuel : k - i < fuel) :
    fixedLoop wrbackBits tag (rangeStart k) fuel (rangeStart i) i (descsAt i) types =
      some (descsAt k, setTypes (fixedType wrbackBits tag) i (k - i) types) := by
  induction fuel generalizing i types with
  | zero => omega
  | succ fuel ih =>
    rcases hik.eq_or_lt with rfl | hlt
    · rw [fixedLoop_end, Nat.sub_self, setTypes]
    · obtain ⟨desc, rest, hdescs, hstep, hnext⟩ := descsAt_cons (show i < 88 by omega)
      have hstart := rangeStart_lt hlt
      have hsucc := rangeStart_lt (show i < i + 1 by omega)
      have hle := rangeStart_le (show i + 1 ≤ 88 by omega)
      have htop : rangeStart 88 = 0x100 := rfl
      have hbegin : Word.add 32 (rangeStart i) desc.step = rangeStart (i + 1) := by
        rw [Word.add_eq (by omega)]
        omega
      rw [hdescs, fixedLoop_cons (by omega) (by omega), hbegin, hnext, ih hlt (by omega),
        show k - i = k - (i + 1) + 1 by omega, setTypes]

/-- Within the steps of one descriptor. -/
lemma fixedLoop_unaligned (hend : ∀ m, begin + m * desc.step ≠ desc.end_)
    (hstep : 0 < desc.step) (hn : i + n ≤ 88) (hfit : begin + n * desc.step < 2 ^ 32)
    (hfuel : n < fuel) :
    fixedLoop wrbackBits tag (begin + n * desc.step) fuel begin i (desc :: rest) types =
      some (desc :: rest, setTypes (fixedType wrbackBits tag) i n types) := by
  induction n generalizing begin i types fuel with
  | zero =>
    obtain ⟨fuel, rfl⟩ : ∃ m, fuel = m + 1 := ⟨fuel - 1, by omega⟩
    rw [Nat.zero_mul, Nat.add_zero, fixedLoop_end, setTypes]
  | succ n ih =>
    obtain ⟨fuel, rfl⟩ : ∃ m, fuel = m + 1 := ⟨fuel - 1, by omega⟩
    have hmul : (n + 1) * desc.step = n * desc.step + desc.step := Nat.succ_mul _ _
    have hbegin : Word.add 32 begin desc.step = begin + desc.step := Word.add_eq (by omega)
    have hone := hend 1
    rw [Nat.one_mul] at hone
    rw [fixedLoop_cons (by omega) (by omega), hbegin, if_neg hone, hmul,
      show begin + (n * desc.step + desc.step) = begin + desc.step + n * desc.step by omega,
      setTypes]
    refine ih (fun m => ?_) (by omega) (by omega) (by omega)
    have hm := hend (m + 1)
    rw [Nat.succ_mul] at hm
    omega

/-- An end inside a range is never reached from the beginning of a range. -/
lemma fixedLoop_none_of_aligned (hend : ∀ k, rangeStart k ≠ end_) (hi : i ≤ 88) :
    fixedLoop wrbackBits tag end_ fuel (rangeStart i) i (descsAt i) types = none := by
  induction fuel generalizing i types with
  | zero => rfl
  | succ fuel ih =>
    rcases hi.eq_or_lt with rfl | hi
    · exact fixedLoop_nil (hend 88)
    · obtain ⟨desc, rest, hdescs, hstep, hnext⟩ := descsAt_cons hi
      have hsucc := rangeStart_lt (show i < i + 1 by omega)
      have hle := rangeStart_le (show i + 1 ≤ 88 by omega)
      have htop : rangeStart 88 = 0x100 := rfl
      have hbegin : Word.add 32 (rangeStart i) desc.step = rangeStart (i + 1) := by
        rw [Word.add_eq (by omega)]
        omega
      rw [hdescs, fixedLoop_cons (hend i) hi, hbegin, hnext, ih hi]

/-- Neither is an end at another offset within a range than the beginning. -/
lemma fixedLoop_none_of_unaligned (hend : ∀ m, begin + m * desc.step ≠ desc.end_)
    (hnever : ∀ m, begin + m * desc.step ≠ end_)
    (hfit : begin + (88 - i) * desc.step < 2 ^ 32) :
    fixedLoop wrbackBits tag end_ fuel begin i (desc :: rest) types = none := by
  induction fuel generalizing begin i types with
  | zero => rfl
  | succ fuel ih =>
    have hzero := hnever 0
    rw [Nat.zero_mul, Nat.add_zero] at hzero
    by_cases hi : i < 88
    · have hone := hend 1
      have hmul : (88 - i) * desc.step = (88 - (i + 1)) * desc.step + desc.step := by
        rw [show 88 - i = 88 - (i + 1) + 1 by omega, Nat.succ_mul]
      rw [fixedLoop_cons hzero hi, Word.add_eq (by omega), if_neg (by omega)]
      refine ih (fun m => ?_) (fun m => ?_) (by omega)
      · have hm := hend (m + 1)
        rw [Nat.succ_mul] at hm
        omega
      · have hm := hnever (m + 1)
        rw [Nat.succ_mul] at hm
        omega
    · exact fixedLoop_of_le hzero (by omega)

/-! ### Entries -/

/-- The page behind the last one that an entry without the first descriptor's size may end in. -/
def nextRange (p : ℕ) : ℕ := if p < 0x80 then 0x84 else 0xc1

/-- The entry begins and ends between ranges, or at the same offset in two ranges of one size; then
no range behind the last one of this size is within the entry, unless it is uncacheable. -/
def EntryFits (wrbackBits begin end_ tag : ℕ) : Prop :=
  rangeSize begin ∣ begin ∧ rangeSize end_ ∣ end_ ∨
    rangeSize begin ∣ end_ - begin ∧ (fixedType wrbackBits tag = 0 ∨ end_ < nextRange begin)

/-- The ranges from that of `begin` to the one before `k` are set; each of them has a page of the
entry. -/
structure Covers (begin end_ k : ℕ) : Prop where
  lt : rangeOf begin < k
  le : k ≤ 88
  touches : ∀ i, rangeOf begin ≤ i → i < k → rangeStart i < end_ ∧ begin < rangeStart (i + 1)

lemma fixedLoop_some_of_aligned {res : List FixedMtrrDesc × List ℕ} (hbegin : begin < end_)
    (hend : end_ ≤ 0x100) (hdvd : rangeSize begin ∣ begin)
    (h : fixedLoop wrbackBits tag end_ fuel begin (rangeOf begin) (descsAt (rangeOf begin)) types =
      some res) :
    ∃ k, rangeStart k = end_ ∧ Covers begin end_ k ∧
      res = (descsAt k, setTypes (fixedType wrbackBits tag) (rangeOf begin)
        (k - rangeOf begin) types) := by
  have hstart := rangeStart_of_dvd hdvd
  by_cases hk : ∃ k, rangeStart k = end_
  · obtain ⟨k, rfl⟩ := hk
    have hlt : rangeOf begin < k := by
      by_contra hge
      have := rangeStart_le (show k ≤ rangeOf begin by omega)
      omega
    have hle : k ≤ 88 := by
      by_contra hge
      have := rangeStart_lt (show 88 < k by omega)
      have htop : rangeStart 88 = 0x100 := rfl
      omega
    refine ⟨k, rfl, ⟨hlt, hle, fun i hi hik => ⟨rangeStart_lt hik, ?_⟩⟩, ?_⟩
    · have := rangeStart_lt (show rangeOf begin < i + 1 by omega)
      omega
    · have hloop : fixedLoop wrbackBits tag (rangeStart k) (max fuel 89)
          (rangeStart (rangeOf begin)) (rangeOf begin) (descsAt (rangeOf begin)) types = _ :=
        fixedLoop_aligned hlt.le hle (by omega)
      rw [hstart, fixedLoop_mono h (le_max_left fuel 89)] at hloop
      exact Option.some.inj hloop
  · have hloop : fixedLoop wrbackBits tag end_ fuel (rangeStart (rangeOf begin)) (rangeOf begin)
        (descsAt (rangeOf begin)) types = none :=
      fixedLoop_none_of_aligned (fun k hk' => hk ⟨k, hk'⟩) (rangeOf_lt (by omega)).le
    rw [hstart, h] at hloop
    cases hloop

lemma fixedLoop_some_of_unaligned {res : List FixedMtrrDesc × List ℕ} (hbegin : begin < end_)
    (hend : end_ ≤ 0x100) (hdvd : ¬rangeSize begin ∣ begin)
    (h : fixedLoop wrbackBits tag end_ fuel begin (rangeOf begin) (descsAt (rangeOf begin)) types =
      some res) :
    ∃ n, begin + n * rangeSize begin = end_ ∧ Covers begin end_ (rangeOf begin + n) ∧
      res = (descsAt (rangeOf begin),
        setTypes (fixedType wrbackBits tag) (rangeOf begin) n types) := by
  obtain ⟨desc, rest, hdescs, hstep, -, hlast⟩ := descsAt_rangeOf (show begin < 0x100 by omega)
  have hnever : ∀ m, begin + m * desc.step ≠ desc.end_ := by
    intro m hm
    rw [← hm, hstep] at hlast
    exact hdvd ((Nat.dvd_add_left (Dvd.intro_left m rfl)).mp hlast)
  have hsize : begin < 0x80 ∧ rangeSize begin = 16 ∧ rangeOf begin = begin / 16 ∨
      0x80 ≤ begin ∧ begin < 0xc0 ∧ rangeSize begin = 4 ∧
        rangeOf begin = 8 + (begin - 0x80) / 4 := by
    unfold rangeSize at hdvd ⊢
    unfold rangeOf
    split_ifs at hdvd ⊢ <;> omega
  rw [hdescs] at h ⊢
  by_cases hn : ∃ n, begin + n * rangeSize begin = end_
  · obtain ⟨n, hn⟩ := hn
    have hcovers : Covers begin end_ (rangeOf begin + n) := by
      rcases hsize with ⟨hlt, hsize, hof⟩ | ⟨hge, hlt, hsize, hof⟩
      all_goals
        rw [hsize] at hn
        refine ⟨by omega, by omega, fun i hi hik => ?_⟩
        unfold rangeStart
        split_ifs <;> omega
    have hloop : fixedLoop wrbackBits tag (begin + n * desc.step) (max fuel 89) begin
        (rangeOf begin) (desc :: rest) types = _ :=
      fixedLoop_unaligned hnever (by omega) hcovers.le (by rw [hstep]; omega)
        (by have := hcovers.le; omega)
    rw [hstep, hn, fixedLoop_mono h (le_max_left fuel 89)] at hloop
    exact ⟨n, hn, hcovers, Option.some.inj hloop⟩
  · have hloop : fixedLoop wrbackBits tag end_ fuel begin (rangeOf begin) (desc :: rest) types =
        none :=
      fixedLoop_none_of_unaligned hnever (fun m hm => hn ⟨m, by rw [← hstep]; exact hm⟩) (by
        rw [hstep]
        rcases hsize with ⟨hlt, hsize, -⟩ | ⟨hge, hlt, hsize, -⟩ <;> rw [hsize] <;> omega)
    rw [h] at hloop
    cases hloop

/-- Whether the range behind the last one that is set is within the entry. -/
lemma rangeStart_le_iff (hbegin : begin < end_) (hend : end_ ≤ 0x100)
    (hdvd : ¬rangeSize begin ∣ begin) (hn : begin + n * rangeSize begin = end_) :
    rangeStart (rangeOf begin + n + 1) ≤ end_ ↔ nextRange begin ≤ end_ := by
  unfold rangeSize at hdvd hn
  unfold rangeStart rangeOf nextRange
  split_ifs at hdvd hn ⊢ <;> omega

/-- What the loop does with an entry, if it ends. -/
lemma fixedLoop_some {res : List FixedMtrrDesc × List ℕ} (hbegin : begin < end_)
    (hend : end_ ≤ 0x100)
    (h : fixedLoop wrbackBits tag end_ fuel begin (rangeOf begin) (descsAt (rangeOf begin)) types =
      some res) :
    ∃ j k, res = (descsAt j, setTypes (fixedType wrbackBits tag) (rangeOf begin)
        (k - rangeOf begin) types) ∧ rangeStart j ≤ end_ ∧ Covers begin end_ k ∧
      (EntryFits wrbackBits begin end_ tag → fixedType wrbackBits tag = 0 ∨
        ∀ i, k ≤ i → end_ < rangeStart (i + 1)) ∧
      (¬EntryFits wrbackBits begin end_ tag → fixedType wrbackBits tag ≠ 0 ∧
        k < 88 ∧ rangeStart (k + 1) ≤ end_) := by
  by_cases hdvd : rangeSize begin ∣ begin
  · obtain ⟨k, rfl, hcovers, hres⟩ := fixedLoop_some_of_aligned hbegin hend hdvd h
    refine ⟨k, k, hres, le_rfl, hcovers, fun _ => Or.inr fun i hi => ?_, fun hfits => ?_⟩
    · exact rangeStart_lt (by omega)
    · exact absurd (Or.inl ⟨hdvd, rangeSize_rangeStart k⟩) hfits
  · obtain ⟨n, hn, hcovers, hres⟩ := fixedLoop_some_of_unaligned hbegin hend hdvd h
    have hfits : EntryFits wrbackBits begin end_ tag ↔
        fixedType wrbackBits tag = 0 ∨ end_ < nextRange begin := by
      refine ⟨fun h => (h.resolve_left fun h => hdvd h.1).2, fun h => Or.inr ⟨⟨n, ?_⟩, h⟩⟩
      rw [Nat.mul_comm]
      omega
    have hstart := rangeStart_rangeOf_le begin
    refine ⟨rangeOf begin, rangeOf begin + n, by rw [Nat.add_sub_cancel_left]; exact hres, by omega,
      hcovers, fun h => (hfits.mp h).imp_right fun hlt i hi => ?_, fun h => ?_⟩
    · have hle := rangeStart_le (show rangeOf begin + n + 1 ≤ i + 1 by omega)
      have hbehind := (rangeStart_le_iff hbegin hend hdvd hn).not.mpr (Nat.not_le.mpr hlt)
      omega
    · rw [hfits, not_or, Nat.not_lt] at h
      have hwithin := (rangeStart_le_iff hbegin hend hdvd hn).mpr h.2
      refine ⟨h.1, ?_, hwithin⟩
      by_contra hge
      have hle := rangeStart_lt (show 88 < rangeOf begin + n + 1 by omega)
      have htop : rangeStart 88 = 0x100 := rfl
      omega

lemma fixedLoop_of_fits (types : List ℕ) (hbegin : begin < end_) (hend : end_ ≤ 0x100) (hfuel : 89 ≤ fuel)
    (hfits : EntryFits wrbackBits begin end_ tag) :
    ∃ res, fixedLoop wrbackBits tag end_ fuel begin (rangeOf begin) (descsAt (rangeOf begin))
      types = some res := by
  by_cases hdvd : rangeSize begin ∣ begin
  · obtain ⟨k, hk, rfl⟩ : ∃ k ≤ 88, rangeStart k = end_ := by
      have hend' : rangeSize end_ ∣ end_ := by
        rcases hfits with h | h
        · exact h.2
        · have hsum := (Nat.dvd_sub_iff_left hbegin.le hdvd).mp h.1
          unfold rangeSize at hsum ⊢
          split_ifs at hsum ⊢ <;> omega
      refine ⟨rangeOf end_, ?_, rangeStart_of_dvd hend'⟩
      unfold rangeOf
      split_ifs <;> omega
    have hstart := rangeStart_of_dvd hdvd
    have hle : rangeOf begin ≤ k := by
      by_contra hge
      have := rangeStart_le (show k ≤ rangeOf begin by omega)
      omega
    have hloop : fixedLoop wrbackBits tag (rangeStart k) fuel (rangeStart (rangeOf begin))
        (rangeOf begin) (descsAt (rangeOf begin)) types = _ := fixedLoop_aligned hle hk (by omega)
    rw [hstart] at hloop
    exact ⟨_, hloop⟩
  · obtain ⟨⟨n, hn⟩, -⟩ := hfits.resolve_left fun h => hdvd h.1
    obtain ⟨desc, rest, hdescs, hstep, -, hlast⟩ := descsAt_rangeOf (show begin < 0x100 by omega)
    have hnever : ∀ m, begin + m * desc.step ≠ desc.end_ := by
      intro m hm
      rw [← hm, hstep] at hlast
      exact hdvd ((Nat.dvd_add_left (Dvd.intro_left m rfl)).mp hlast)
    have hpos : 0 < rangeSize begin ∧ rangeOf begin + n ≤ 88 := by
      unfold rangeSize at hdvd hn ⊢
      unfold rangeOf
      split_ifs at hdvd hn ⊢ <;> omega
    have hsum : begin + n * desc.step = end_ := by
      rw [hstep, Nat.mul_comm]
      omega
    have hloop : fixedLoop wrbackBits tag (begin + n * desc.step) fuel begin (rangeOf begin)
        (desc :: rest) types = _ :=
      fixedLoop_unaligned hnever (by omega) hpos.2 (by omega) (by omega)
    rw [hsum, ← hdescs] at hloop
    exact ⟨_, hloop⟩

end ApuBios.Mtrr
