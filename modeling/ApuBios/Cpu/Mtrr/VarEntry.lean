import ApuBios.Cpu.Mtrr.Var

/-!
# The number of registers of an entry

An entry of the address space takes the same registers when it is counted and when it is written,
and less than 64 without a hole.
-/

namespace ApuBios.Mtrr

open Memrange

variable {above4gb : Bool} {defType : ℕ}

/-! ### The registers of an entry -/

/-- The state of a count. -/
def fresh (above4gb : Bool) (defType : ℕ) : VarMtrrState :=
  { above4gb, addressBits := 0, commitMtrrs := false, mtrrIndex := 0, defMtrrType := defType,
    regs := fun _ => ⟨⟨0, 0⟩, ⟨0, 0⟩⟩ }

/-- The registers that an entry takes without a hole. -/
def noHoleCount (above4gb : Bool) (r : RangeEntry) : ℕ :=
  (calcVarMtrrsWithoutHole 0 (fresh above4gb MTRR_TYPE_UNCACHEABLE) r).mtrrIndex

/-- The registers that an entry takes with a hole up to `next`. -/
def holeCount (above4gb : Bool) (r : RangeEntry) (next : Option RangeEntry) : ℕ :=
  (calcVarMtrrsWithHole 0 (fresh above4gb MTRR_TYPE_UNCACHEABLE) r next).mtrrIndex

/-- `f` takes `n` registers. -/
def Takes (above4gb : Bool) (defType n : ℕ) (f : VarMtrrState → VarMtrrState) : Prop :=
  ∀ s : VarMtrrState, s.above4gb = above4gb → s.defMtrrType = defType →
    ∃ regs, f s = { s with mtrrIndex := s.mtrrIndex + n, regs }

lemma Takes.id : Takes above4gb defType 0 fun s => s := fun s _ _ => ⟨s.regs, rfl⟩

lemma Takes.range (totalMtrrs base size mtrrType : ℕ) :
    Takes above4gb defType (rangeCount base size)
      fun s => calcVarMtrrRange totalMtrrs s base size mtrrType :=
  fun s _ _ => calcVarMtrrRange_eq totalMtrrs s base size mtrrType

lemma Takes.comp {m n : ℕ} {f g : VarMtrrState → VarMtrrState} (hf : Takes above4gb defType m f)
    (hg : Takes above4gb defType n g) : Takes above4gb defType (m + n) fun s => g (f s) := by
  intro s hs hd
  obtain ⟨regs, hfs⟩ := hf s hs hd
  obtain ⟨regs', hgs⟩ := hg { s with mtrrIndex := s.mtrrIndex + m, regs } hs hd
  exact ⟨regs', by simp only [hfs, hgs, Nat.add_assoc]⟩

/-- The part of an entry that needs registers, with the first and the last address. -/
lemma dvd_sub_alignUp {a : ℕ} (ha : a < 2 ^ 32) :
    2 ^ 14 ∣ a + Word.sub 32 (Word.alignUp 32 a (2 ^ 14)) a ∧
      Word.sub 32 (Word.alignUp 32 a (2 ^ 14)) a < 2 ^ 14 := by
  have halign : Word.alignUp 32 a (2 ^ 14) = Word.add 32 a (2 ^ 14 - 1) / 2 ^ 14 * 2 ^ 14 :=
    Word.alignDown_eq (by norm_num) Word.add_lt
  rw [halign, Word.sub, Word.add, Nat.mod_eq_of_lt ha]
  constructor <;> omega

lemma two_pow_dvd_alignUp (a : ℕ) : 2 ^ 14 ∣ Word.alignUp 32 a (2 ^ 14) := by
  rw [Word.alignUp, Word.alignDown_eq (by norm_num) Word.add_lt]
  exact Dvd.intro_left _ rfl

lemma two_pow_dvd_alignDown {a : ℕ} (ha : a < 2 ^ 32) : 2 ^ 14 ∣ Word.alignDown 32 a (2 ^ 14) := by
  rw [Word.alignDown_eq (by norm_num) ha]
  exact Dvd.intro_left _ rfl

lemma dvd_sub_of_dvd {a b : ℕ} (ha : 2 ^ 14 ∣ a) (hb : 2 ^ 14 ∣ b) : 2 ^ 14 ∣ Word.sub 32 a b := by
  rw [Word.sub]
  omega

/-- The three parts of a range take less than 64 registers. -/
lemma rangeCount_split_lt {a c : ℕ} (ha : a < 2 ^ 32) (hc : c < 2 ^ 32) :
    rangeCount a (Word.sub 32 (Word.alignUp 32 a (2 ^ 14)) a) +
        rangeCount (Word.alignUp 32 a (2 ^ 14))
          (Word.sub 32 (Word.alignDown 32 c (2 ^ 14)) (Word.alignUp 32 a (2 ^ 14))) +
      rangeCount (Word.alignDown 32 c (2 ^ 14))
        (Word.sub 32 c (Word.alignDown 32 c (2 ^ 14))) < 64 := by
  have h₁ : rangeCount a (Word.sub 32 (Word.alignUp 32 a (2 ^ 14)) a) ≤ 14 - 0 :=
    loopCount_le_of_aligned_end _ (by norm_num) (by norm_num) (one_dvd _) (one_dvd _)
      (dvd_sub_alignUp ha).1 (dvd_sub_alignUp ha).2
  have h₂ : rangeCount (Word.alignUp 32 a (2 ^ 14))
      (Word.sub 32 (Word.alignDown 32 c (2 ^ 14)) (Word.alignUp 32 a (2 ^ 14))) ≤
        (32 - 14) + (32 - 14) - 1 :=
    loopCount_le _ le_rfl (by norm_num) (two_pow_dvd_alignUp a) Word.sub_lt le_rfl
      (dvd_sub_of_dvd (two_pow_dvd_alignDown hc) (two_pow_dvd_alignUp a))
  have h₃ : rangeCount (Word.alignDown 32 c (2 ^ 14))
      (Word.sub 32 c (Word.alignDown 32 c (2 ^ 14))) ≤ 14 - 0 := by
    refine loopCount_le_of_aligned _ (by norm_num) (two_pow_dvd_alignDown hc) ?_ (one_dvd _)
    have hlt := Word.lt_alignDown_add (w := 32) (k := 14) (by norm_num) hc
    have hle := Word.alignDown_le (w := 32) (k := 14) (by norm_num) hc
    rw [Word.sub_eq hle hc]
    omega
  omega

/-- Where the registers of an entry begin. -/
def clippedBase (r : RangeEntry) : ℕ :=
  if rangeEntryBaseMtrrAddr r < RANGE_1MB then 0 else rangeEntryBaseMtrrAddr r

/-- Where they end. -/
def clippedEnd (above4gb : Bool) (r : RangeEntry) : ℕ :=
  if !above4gb ∧ RANGE_4GB < rangeEntryEndMtrrAddr r then RANGE_4GB else rangeEntryEndMtrrAddr r

lemma physToRangeAddr_lt (x : ℕ) : physToRangeAddr x < 2 ^ 32 := Nat.mod_lt _ (by norm_num)

lemma clippedBase_lt (r : RangeEntry) : clippedBase r < 2 ^ 32 := by
  rw [clippedBase]
  split_ifs
  · norm_num
  · exact physToRangeAddr_lt _

lemma clippedEnd_lt (above4gb : Bool) (r : RangeEntry) : clippedEnd above4gb r < 2 ^ 32 := by
  rw [clippedEnd]
  split_ifs
  · decide
  · exact physToRangeAddr_lt _

lemma MTRR_MIN_ALIGN_eq : MTRR_MIN_ALIGN = 2 ^ 14 := by decide

/-- No registers are needed below 1 MiB, or above 4 GiB when that is left alone. -/
def Ignored (above4gb : Bool) (r : RangeEntry) : Prop :=
  rangeEntryEndMtrrAddr r < RANGE_1MB ∨ (!above4gb ∧ RANGE_4GB ≤ clippedBase r)

instance (above4gb : Bool) (r : RangeEntry) : Decidable (Ignored above4gb r) :=
  inferInstanceAs (Decidable (_ ∨ _))

section

variable (totalMtrrs : ℕ) (s : VarMtrrState) (r : RangeEntry) (next : Option RangeEntry)

lemma ite_ignored (s' : VarMtrrState) :
    (if rangeEntryEndMtrrAddr r < RANGE_1MB then s
      else if !s.above4gb ∧ RANGE_4GB ≤ clippedBase r then s else s') =
      if Ignored s.above4gb r then s else s' := by
  by_cases hlow : rangeEntryEndMtrrAddr r < RANGE_1MB
  · have hignored : Ignored s.above4gb r := Or.inl hlow
    rw [if_pos hlow, if_pos hignored]
  · by_cases hhigh : !s.above4gb ∧ RANGE_4GB ≤ clippedBase r
    · have hignored : Ignored s.above4gb r := Or.inr hhigh
      rw [if_neg hlow, if_pos hhigh, if_pos hignored]
    · have hignored : ¬Ignored s.above4gb r := not_or.mpr ⟨hlow, hhigh⟩
      rw [if_neg hlow, if_neg hhigh, if_neg hignored]

lemma withoutHole_eq :
    calcVarMtrrsWithoutHole totalMtrrs s r =
      if Ignored s.above4gb r then s
      else if Word.sub 32 (clippedEnd s.above4gb r) (clippedBase r) < MTRR_MIN_ALIGN then
        calcVarMtrrRange totalMtrrs s (clippedBase r)
          (Word.sub 32 (clippedEnd s.above4gb r) (clippedBase r)) (rangeEntryMtrrType r)
      else
        let a2 := Word.alignUp 32 (clippedBase r) MTRR_MIN_ALIGN
        let c1 := Word.alignDown 32 (clippedEnd s.above4gb r) MTRR_MIN_ALIGN
        let s' := calcVarMtrrRange totalMtrrs s (clippedBase r) (Word.sub 32 a2 (clippedBase r))
          (rangeEntryMtrrType r)
        let s'' := calcVarMtrrRange totalMtrrs s' a2 (Word.sub 32 c1 a2) (rangeEntryMtrrType r)
        calcVarMtrrRange totalMtrrs s'' c1 (Word.sub 32 (clippedEnd s.above4gb r) c1)
          (rangeEntryMtrrType r) :=
  ite_ignored s r _

/-- The last entry may be covered beyond its end. -/
def CoveredBeyond (above4gb : Bool) (r : RangeEntry) (next : Option RangeEntry) : Prop :=
  RANGE_4GB ≤ clippedBase r ∧ next = none ∧
    clippedEnd above4gb r ≤ Word.add 32 (1 <<< fls (clippedBase r)) (clippedBase r)

instance (above4gb : Bool) (r : RangeEntry) (next : Option RangeEntry) :
    Decidable (CoveredBeyond above4gb r next) := inferInstanceAs (Decidable (_ ∧ _))

/-- The next entry does not have the default type up to the end of the hole. -/
def NoRoom (above4gb : Bool) (defType : ℕ) (r : RangeEntry) (next : Option RangeEntry) : Prop :=
  ∃ n ∈ next, rangeEntryMtrrType n ≠ defType ∨
    rangeEntryEndMtrrAddr n < Word.alignUp 32 (clippedEnd above4gb r) MTRR_MIN_ALIGN

instance (above4gb : Bool) (defType : ℕ) (r : RangeEntry) (next : Option RangeEntry) :
    Decidable (NoRoom above4gb defType r next) := inferInstanceAs (Decidable (∃ n ∈ next, _))

lemma withHole_eq :
    calcVarMtrrsWithHole totalMtrrs s r next =
      if Ignored s.above4gb r then s
      else if CoveredBeyond s.above4gb r next then
        calcVarMtrrRange totalMtrrs s (clippedBase r)
          (Word.sub 32 (Word.add 32 (1 <<< fls (clippedBase r)) (clippedBase r)) (clippedBase r))
          (rangeEntryMtrrType r)
      else if NoRoom s.above4gb s.defMtrrType r next then
        calcVarMtrrRange totalMtrrs s (clippedBase r)
          (Word.sub 32 (clippedEnd s.above4gb r) (clippedBase r)) (rangeEntryMtrrType r)
      else
        let b2 := Word.alignUp 32 (clippedEnd s.above4gb r) MTRR_MIN_ALIGN
        let s' := calcVarMtrrRange totalMtrrs s (clippedBase r)
          (Word.sub 32 b2 (clippedBase r)) (rangeEntryMtrrType r)
        calcVarMtrrRange totalMtrrs s' (clippedEnd s.above4gb r)
          (Word.sub 32 b2 (clippedEnd s.above4gb r)) s'.defMtrrType :=
  ite_ignored s r _

end

lemma withoutHole_takes (above4gb : Bool) (r : RangeEntry) :
    ∃ n < 64, ∀ totalMtrrs defType,
      Takes above4gb defType n fun s => calcVarMtrrsWithoutHole totalMtrrs s r := by
  set a := clippedBase r with ha
  set c := clippedEnd above4gb r with hc
  by_cases hignored : Ignored above4gb r
  · refine ⟨0, by norm_num, fun totalMtrrs defType s hs hd => ?_⟩
    subst hs
    simp only [withoutHole_eq, if_pos hignored]
    exact Takes.id s rfl hd
  · by_cases hsmall : Word.sub 32 c a < MTRR_MIN_ALIGN
    · refine ⟨rangeCount a (Word.sub 32 c a), ?_, fun totalMtrrs defType s hs hd => ?_⟩
      · rw [MTRR_MIN_ALIGN_eq] at hsmall
        have := loopCount_le (n := 14) (l := 0) (t := 0) (Word.sub 32 c a) (by norm_num)
          (by norm_num) (one_dvd a) hsmall le_rfl (one_dvd _)
        rw [rangeCount]
        omega
      · subst hs
        simp only [withoutHole_eq, ← ha, ← hc, if_neg hignored, if_pos hsmall]
        exact Takes.range totalMtrrs a (Word.sub 32 c a) _ s rfl hd
    · refine ⟨_, rangeCount_split_lt (clippedBase_lt r) (clippedEnd_lt above4gb r),
        fun totalMtrrs defType s hs hd => ?_⟩
      subst hs
      rw [MTRR_MIN_ALIGN_eq] at hsmall
      simp only [withoutHole_eq, MTRR_MIN_ALIGN_eq, ← ha, ← hc, if_neg hignored, if_neg hsmall]
      exact ((Takes.range totalMtrrs _ _ _).comp (Takes.range totalMtrrs _ _ _)).comp
        (Takes.range totalMtrrs _ _ _) s rfl hd

lemma withHole_takes (above4gb : Bool) (defType : ℕ) (r : RangeEntry) (next : Option RangeEntry) :
    ∃ n, ∀ totalMtrrs,
      Takes above4gb defType n fun s => calcVarMtrrsWithHole totalMtrrs s r next := by
  set a := clippedBase r with ha
  set c := clippedEnd above4gb r with hc
  by_cases hignored : Ignored above4gb r
  · refine ⟨0, fun totalMtrrs s hs hd => ?_⟩
    subst hs
    simp only [withHole_eq, if_pos hignored]
    exact Takes.id s rfl hd
  · by_cases hbeyond : CoveredBeyond above4gb r next
    · refine ⟨rangeCount a (Word.sub 32 (Word.add 32 (1 <<< fls a) a) a),
        fun totalMtrrs s hs hd => ?_⟩
      subst hs
      simp only [withHole_eq, ← ha, if_neg hignored, if_pos hbeyond]
      exact Takes.range totalMtrrs a _ _ s rfl hd
    · by_cases hroom : NoRoom above4gb defType r next
      · refine ⟨rangeCount a (Word.sub 32 c a), fun totalMtrrs s hs hd => ?_⟩
        subst hs hd
        simp only [withHole_eq, ← ha, ← hc, if_neg hignored, if_neg hbeyond, if_pos hroom]
        exact Takes.range totalMtrrs a _ _ s rfl rfl
      · refine ⟨rangeCount a (Word.sub 32 (Word.alignUp 32 c MTRR_MIN_ALIGN) a) +
          rangeCount c (Word.sub 32 (Word.alignUp 32 c MTRR_MIN_ALIGN) c),
          fun totalMtrrs s hs hd => ?_⟩
        subst hs hd
        simp only [withHole_eq, ← ha, ← hc, if_neg hignored, if_neg hbeyond, if_neg hroom]
        exact (Takes.range totalMtrrs a _ _).comp (Takes.range totalMtrrs c _ _) s rfl rfl

/-- The registers of an entry without a hole, in any state. -/
lemma withoutHole_spec (totalMtrrs : ℕ) (s : VarMtrrState) (r : RangeEntry) :
    ∃ regs, calcVarMtrrsWithoutHole totalMtrrs s r =
      { s with mtrrIndex := s.mtrrIndex + noHoleCount s.above4gb r, regs } := by
  obtain ⟨n, -, htakes⟩ := withoutHole_takes s.above4gb r
  obtain ⟨regs, hfresh⟩ := htakes 0 MTRR_TYPE_UNCACHEABLE (fresh s.above4gb _) rfl rfl
  have hn : noHoleCount s.above4gb r = n := by
    rw [noHoleCount]
    exact (congrArg VarMtrrState.mtrrIndex hfresh).trans (Nat.zero_add n)
  rw [hn]
  exact htakes totalMtrrs s.defMtrrType s rfl rfl

/-- The registers of an entry with a hole, in any state with UC as the default type. -/
lemma withHole_spec (totalMtrrs : ℕ) {s : VarMtrrState} (r : RangeEntry)
    (next : Option RangeEntry) (hd : s.defMtrrType = MTRR_TYPE_UNCACHEABLE) :
    ∃ regs, calcVarMtrrsWithHole totalMtrrs s r next =
      { s with mtrrIndex := s.mtrrIndex + holeCount s.above4gb r next, regs } := by
  obtain ⟨n, htakes⟩ := withHole_takes s.above4gb MTRR_TYPE_UNCACHEABLE r next
  obtain ⟨regs, hfresh⟩ := htakes 0 (fresh s.above4gb _) rfl rfl
  have hn : holeCount s.above4gb r next = n := by
    rw [holeCount]
    exact (congrArg VarMtrrState.mtrrIndex hfresh).trans (Nat.zero_add n)
  rw [hn]
  exact htakes totalMtrrs s rfl hd

lemma noHoleCount_lt (above4gb : Bool) (r : RangeEntry) : noHoleCount above4gb r < 64 := by
  obtain ⟨n, hlt, htakes⟩ := withoutHole_takes above4gb r
  obtain ⟨regs, hfresh⟩ := htakes 0 MTRR_TYPE_UNCACHEABLE (fresh above4gb _) rfl rfl
  rw [noHoleCount]
  exact ((congrArg VarMtrrState.mtrrIndex hfresh).trans (Nat.zero_add n)).trans_lt hlt

end ApuBios.Mtrr
