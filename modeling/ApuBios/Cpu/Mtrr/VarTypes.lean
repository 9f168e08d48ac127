import ApuBios.Cpu.Mtrr.VarProperties

/-!
# The memory type of a page

What the processor makes of the variable registers, and what `calc_var_mtrr_range` adds to it: the
pages of the range get the type, and the other pages keep what they had.
-/

namespace ApuBios.Mtrr

open Memrange

/-! ### Decoding -/

/-- The page number in a register, without the bits below it. -/
def Msr.page (m : Msr) : ℕ := (m.hi <<< 32 ||| m.lo) >>> RANGE_SHIFT

/-- The page is in the range of the registers. -/
def VarMtrr.Matches (v : VarMtrr) (page : ℕ) : Prop :=
  page &&& v.physMask.page = v.physBase.page &&& v.physMask.page

def VarMtrr.memType (v : VarMtrr) : ℕ := v.physBase.lo &&& MTRR_TAG_MASK

instance (v : VarMtrr) : Decidable v.Valid := inferInstanceAs (Decidable (_ ≠ _))

instance (v : VarMtrr) (page : ℕ) : Decidable (v.Matches page) := inferInstanceAs (Decidable (_ = _))

/-- The types of the valid registers whose range has the page. -/
def matchingTypes (totalMtrrs : ℕ) (regs : ℕ → VarMtrr) (page : ℕ) : List ℕ :=
  ((List.range totalMtrrs).filter fun i => (regs i).Valid ∧ (regs i).Matches page).map
    fun i => (regs i).memType

/-- The type of a page that several ranges have: UC wins, and one type stands for itself. -/
def effectiveType (totalMtrrs : ℕ) (regs : ℕ → VarMtrr) (defType page : ℕ) : Option ℕ :=
  match matchingTypes totalMtrrs regs page with
  | [] => some defType
  | t :: rest =>
    if MTRR_TYPE_UNCACHEABLE ∈ t :: rest then some MTRR_TYPE_UNCACHEABLE
    else if ∀ t' ∈ rest, t' = t then some t
    else none

/-- One of the first `n` registers has the type for the page. -/
def TypeAt (regs : ℕ → VarMtrr) (n page t : ℕ) : Prop :=
  ∃ i < n, (regs i).Matches page ∧ (regs i).memType = t

section

variable {totalMtrrs n page t : ℕ} {regs : ℕ → VarMtrr}

lemma mem_matchingTypes (hn : n ≤ totalMtrrs)
    (hvalid : ∀ i < totalMtrrs, (regs i).Valid ↔ i < n) :
    t ∈ matchingTypes totalMtrrs regs page ↔ TypeAt regs n page t := by
  simp only [matchingTypes, List.mem_map, List.mem_filter, List.mem_range, decide_eq_true_eq]
  constructor
  · rintro ⟨i, ⟨hi, hv, hmatches⟩, rfl⟩
    exact ⟨i, (hvalid i hi).mp hv, hmatches, rfl⟩
  · rintro ⟨i, hi, hmatches, rfl⟩
    exact ⟨i, ⟨by omega, (hvalid i (by omega)).mpr hi, hmatches⟩, rfl⟩

lemma effectiveType_of_none (defType : ℕ) (h : ∀ t, t ∉ matchingTypes totalMtrrs regs page) :
    effectiveType totalMtrrs regs defType page = some defType := by
  rw [effectiveType, List.eq_nil_iff_forall_not_mem.mpr h]

lemma effectiveType_of_uc (defType : ℕ)
    (h : MTRR_TYPE_UNCACHEABLE ∈ matchingTypes totalMtrrs regs page) :
    effectiveType totalMtrrs regs defType page = some MTRR_TYPE_UNCACHEABLE := by
  rw [effectiveType]
  cases htypes : matchingTypes totalMtrrs regs page with
  | nil =>
    rw [htypes] at h
    cases h
  | cons t rest =>
    rw [htypes] at h
    exact if_pos h

lemma effectiveType_of_all (defType : ℕ) (hmem : t ∈ matchingTypes totalMtrrs regs page)
    (h : ∀ t' ∈ matchingTypes totalMtrrs regs page, t' = t) :
    effectiveType totalMtrrs regs defType page = some t := by
  by_cases huc : t = MTRR_TYPE_UNCACHEABLE
  · rw [huc] at hmem ⊢
    exact effectiveType_of_uc defType hmem
  · rw [effectiveType]
    cases htypes : matchingTypes totalMtrrs regs page with
    | nil =>
      rw [htypes] at hmem
      cases hmem
    | cons t' rest =>
      rw [htypes] at h
      obtain rfl : t' = t := h t' (by simp)
      have hnot : MTRR_TYPE_UNCACHEABLE ∉ t' :: rest := fun hin => huc (h _ hin).symm
      exact (if_neg hnot).trans (if_pos fun t'' ht'' => h t'' (List.mem_cons_of_mem _ ht''))

end

/-! ### Writing -/

lemma Msr.page_eq {x low : ℕ} (hlow : low < 2 ^ 12) :
    Msr.page ⟨x % 2 ^ 32 ||| low, x >>> 32⟩ = x >>> RANGE_SHIFT := by
  apply Nat.eq_of_testBit_eq
  intro i
  have hlow' : low.testBit (12 + i) = false :=
    Nat.testBit_lt_two_pow (hlow.trans_le (Nat.pow_le_pow_right (by norm_num) (by omega)))
  simp only [Msr.page, RANGE_SHIFT, Nat.testBit_shiftRight, Nat.testBit_or, Nat.testBit_shiftLeft,
    Nat.testBit_mod_two_pow, hlow', Bool.or_false]
  by_cases hi : 32 ≤ 12 + i
  · simp [hi, not_lt.mpr hi, show 32 + (12 + i - 32) = 12 + i by omega]
  · simp [hi, not_le.mp hi]

/-- The smallest power of two that a range of registers has for its mask, as it is read back. -/
lemma maskPage_testBit {k addressBits : ℕ} (hk : k < 32) {i : ℕ} (hi : i + 12 < addressBits)
    (hi' : i < 32) :
    (Msr.page ⟨(Word.sub 64 0 (2 ^ k <<< RANGE_SHIFT) &&&
        Word.sub 64 (1 <<< addressBits % 2 ^ 64) 1) % 2 ^ 32 ||| MTRRphysMaskValid,
      (Word.sub 64 0 (2 ^ k <<< RANGE_SHIFT) &&&
        Word.sub 64 (1 <<< addressBits % 2 ^ 64) 1) >>> 32⟩).testBit i = decide (k ≤ i) := by
  have hsize : Word.sub 64 0 (2 ^ k <<< RANGE_SHIFT) = 2 ^ 64 - 2 ^ (k + 12) := by
    have hlt : 2 ^ (k + 12) < 2 ^ 64 := Nat.pow_lt_pow_right (by norm_num) (by omega)
    rw [RANGE_SHIFT, Nat.shiftLeft_eq, ← pow_add, Word.sub_eq_wrap (by positivity) hlt, Nat.zero_add]
  have hmask : Word.sub 64 (1 <<< addressBits % 2 ^ 64) 1 = 2 ^ min addressBits 64 - 1 := by
    rw [Nat.one_shiftLeft]
    by_cases hbits : addressBits < 64
    · have hlt : 2 ^ addressBits < 2 ^ 64 := Nat.pow_lt_pow_right (by norm_num) hbits
      rw [Nat.mod_eq_of_lt hlt, min_eq_left hbits.le, Word.sub_eq Nat.one_le_two_pow hlt]
    · rw [min_eq_right (not_lt.mp hbits),
        Nat.mod_eq_zero_of_dvd (pow_dvd_pow 2 (not_lt.mp hbits))]
      decide
  rw [Msr.page_eq (by decide), hsize, hmask, RANGE_SHIFT, Nat.testBit_shiftRight,
    Word.testBit_sub_two_pow_and (by omega)]
  have h₁ : 12 + i < 64 := by omega
  have h₂ : 12 + i < min addressBits 64 := by omega
  have h₃ : k + 12 ≤ 12 + i ↔ k ≤ i := by omega
  simp only [h₁, h₂, h₃, decide_true, Bool.true_and, Bool.and_true]

lemma two_pow_fls_dvd (base : ℕ) : 2 ^ fls base ∣ base := by
  have hlow : ∀ j < fls base, base.testBit j = false := by
    intro j hj
    rw [fls] at hj
    cases hfind : (List.range 32).find? base.testBit with
    | none =>
      rw [hfind] at hj
      simpa using List.find?_eq_none.mp hfind j (List.mem_range.mpr hj)
    | some k =>
      rw [hfind] at hj
      simpa using (List.find?_range_eq_some.mp hfind).2.2 j hj
  have hmod : base % 2 ^ fls base = 0 := by
    apply Nat.eq_of_testBit_eq
    intro j
    rw [Nat.testBit_mod_two_pow, Nat.zero_testBit]
    by_cases hj : j < fls base
    · simp [hlow j hj]
    · simp [hj]
  exact Nat.dvd_of_mod_eq_zero hmod

section

variable {totalMtrrs m page t base mtrrType : ℕ} {s : VarMtrrState}

/-- The pages that the registers can tell apart: the bits below `m` are in the mask, and the type
fits below the page number. -/
structure Decodable (s : VarMtrrState) (m : ℕ) : Prop where
  commits : s.commitMtrrs = true
  le : m ≤ 32
  bits : m + 12 ≤ s.addressBits

lemma Decodable.of_index (h : Decodable s m) (n : ℕ) (regs : ℕ → VarMtrr) :
    Decodable { s with mtrrIndex := n, regs } m :=
  ⟨h.commits, h.le, h.bits⟩

/-- The registers of one aligned block. -/
lemma writeVarMtrr_spec {k : ℕ} (h : Decodable s m) (hroom : s.mtrrIndex < totalMtrrs)
    (hpage : page < 2 ^ m) (hdvd : 2 ^ k ∣ base) (hbase : base < 2 ^ m) (hk : k < 32)
    (htype : mtrrType < 2 ^ 8) :
    ∃ v : VarMtrr, writeVarMtrr totalMtrrs s base (2 ^ k) mtrrType =
        { s with regs := Function.update s.regs s.mtrrIndex v } ∧
      (v.Matches page ↔ base ≤ page ∧ page < base + 2 ^ k) ∧ v.memType = mtrrType := by
  refine ⟨_, if_neg (not_le.mpr hroom), ?_, ?_⟩
  · rw [VarMtrr.Matches, Msr.page_eq (htype.trans (by norm_num)), Nat.shiftLeft_shiftRight,
      Word.and_eq_and_iff (k := k) (n := m) _ hpage hbase, Word.div_eq_div_iff_of_dvd hdvd]
    intro i hi
    have hle := h.le
    have hbits := h.bits
    exact maskPage_testBit hk (by omega) (by omega)
  · have hlow : (base <<< RANGE_SHIFT % 2 ^ 32) &&& MTRR_TAG_MASK = 0 := by
      rw [MTRR_TAG_MASK, Nat.and_two_pow_sub_one_eq_mod, Nat.mod_mod_of_dvd _ (by norm_num),
        RANGE_SHIFT, Nat.shiftLeft_eq]
      omega
    rw [VarMtrr.memType, Nat.and_or_distrib_right, hlow, Nat.zero_or, MTRR_TAG_MASK,
      Nat.and_two_pow_sub_one_eq_mod, Nat.mod_eq_of_lt htype]

lemma typeAt_update (regs : ℕ → VarMtrr) (n : ℕ) (v : VarMtrr) :
    TypeAt (Function.update regs n v) (n + 1) page t ↔
      TypeAt regs n page t ∨ (v.Matches page ∧ v.memType = t) := by
  constructor
  · rintro ⟨i, hi, hi'⟩
    rcases (Nat.lt_succ_iff.mp hi).lt_or_eq with hlt | rfl
    · rw [Function.update_of_ne hlt.ne] at hi'
      exact Or.inl ⟨i, hlt, hi'⟩
    · rw [Function.update_self] at hi'
      exact Or.inr hi'
  · rintro (⟨i, hi, hi'⟩ | hv)
    · exact ⟨i, by omega, by rwa [Function.update_of_ne hi.ne]⟩
    · exact ⟨n, by omega, by rwa [Function.update_self]⟩

/-- The first register is within the range. -/
lemma mtrrSize_spec (base : ℕ) {size : ℕ} (hpos : size ≠ 0) (hsize : size < 2 ^ 32) :
    ∃ k < 32, mtrrSize base size = 2 ^ k ∧ 2 ^ k ∣ base ∧ 2 ^ k ≤ size := by
  refine ⟨min (fms size) (fls base), ?_, mtrrSize_eq base size, ?_, ?_⟩
  · have hfms : fms size < 32 := (Nat.log2_lt hpos).mpr hsize
    omega
  · exact (pow_dvd_pow 2 (min_le_right _ _)).trans (two_pow_fls_dvd base)
  · exact (Nat.pow_le_pow_right (by norm_num) (min_le_left _ _)).trans (Nat.log2_self_le hpos)

/-- The pages behind the first register, which may end at the last page that 32 bits can count. -/
lemma behind_first (page : ℕ) {k size : ℕ} (hm : m ≤ 32) (hle : 2 ^ k ≤ size)
    (hfit : base + size ≤ 2 ^ m) :
    Word.add 32 base (2 ^ k) + (size - 2 ^ k) ≤ 2 ^ m ∧
      ((Word.add 32 base (2 ^ k) ≤ page ∧ page < Word.add 32 base (2 ^ k) + (size - 2 ^ k)) ↔
        base + 2 ^ k ≤ page ∧ page < base + size) := by
  have hpow : 2 ^ m ≤ 2 ^ 32 := Nat.pow_le_pow_right (by norm_num) hm
  by_cases hlt : base + 2 ^ k < 2 ^ 32
  · rw [Word.add_eq hlt]
    omega
  · have hzero : Word.add 32 base (2 ^ k) = 0 := by
      rw [Word.add, show base + 2 ^ k = 2 ^ 32 by omega, Nat.mod_self]
    rw [hzero]
    omega

/-- The pages of the range get the type, and nothing else changes. -/
lemma calcVarMtrrLoop_typeAt (fuel : ℕ) {size : ℕ} (h : Decodable s m) (hfuel : size ≤ fuel)
    (hpage : page < 2 ^ m) (htype : mtrrType < 2 ^ 8) (hsize : size < 2 ^ 32)
    (hfit : base + size ≤ 2 ^ m)
    (hroom : (calcVarMtrrLoop totalMtrrs mtrrType fuel s base size).mtrrIndex ≤ totalMtrrs) :
    TypeAt (calcVarMtrrLoop totalMtrrs mtrrType fuel s base size).regs
        (calcVarMtrrLoop totalMtrrs mtrrType fuel s base size).mtrrIndex page t ↔
      TypeAt s.regs s.mtrrIndex page t ∨ (t = mtrrType ∧ base ≤ page ∧ page < base + size) := by
  induction fuel generalizing s base size with
  | zero =>
    obtain rfl : size = 0 := by omega
    refine (or_iff_left fun hin => ?_).symm
    omega
  | succ fuel ih =>
    by_cases hzero : size = 0
    · subst hzero
      rw [calcVarMtrrLoop, if_pos rfl]
      refine (or_iff_left fun hin => ?_).symm
      omega
    · obtain ⟨k, hk, hmtrr, hdvd, hle⟩ := mtrrSize_spec base hzero hsize
      have hpos : 0 < 2 ^ k := by positivity
      obtain ⟨hfit', hin⟩ := behind_first page h.le hle hfit
      simp only [calcVarMtrrLoop, if_neg hzero, h.commits, if_true, hmtrr,
        Word.sub_eq hle hsize] at hroom ⊢
      have hindex : s.mtrrIndex < totalMtrrs := by
        obtain ⟨regs, hwrite⟩ := writeVarMtrr_eq totalMtrrs s base (2 ^ k) mtrrType
        obtain ⟨regs', hloop⟩ := calcVarMtrrLoop_eq totalMtrrs mtrrType fuel
          { s with regs, mtrrIndex := s.mtrrIndex + 1 } (Word.add 32 base (2 ^ k)) (size - 2 ^ k)
        simp only [hwrite, hloop] at hroom
        omega
      obtain ⟨v, hwrite, hmatches, hmem⟩ := writeVarMtrr_spec h hindex hpage hdvd
        (by omega) hk htype
      simp only [hwrite] at hroom ⊢
      rw [ih (h.of_index _ _) (by omega) (by omega) hfit' hroom, typeAt_update,
        hmatches, hmem, hin, or_assoc]
      refine or_congr Iff.rfl ?_
      constructor
      · rintro (⟨hpg, rfl⟩ | ⟨rfl, hpg⟩)
        · exact ⟨rfl, by omega⟩
        · exact ⟨rfl, by omega⟩
      · rintro ⟨rfl, hpg⟩
        by_cases hfirst : page < base + 2 ^ k
        · exact Or.inl ⟨⟨hpg.1, hfirst⟩, rfl⟩
        · exact Or.inr ⟨rfl, not_lt.mp hfirst, hpg.2⟩

end

end ApuBios.Mtrr

/-!
# The ranges that are written

`commit_var_mtrrs` writes a list of ranges, up to three for an entry, that depends on the address
space and the default type only. What the processor makes of a page follows from the ranges.
-/

namespace ApuBios.Mtrr

open Memrange

/-- A range that registers are written for. -/
structure Span where
  base : ℕ
  size : ℕ
  memType : ℕ
  deriving DecidableEq, Repr

def Span.Has (p : Span) (page : ℕ) : Prop := p.base ≤ page ∧ page < p.base + p.size

/-- The range is below page `2 ^ m`, and its type fits into the register. -/
structure Span.Fits (m : ℕ) (p : Span) : Prop where
  size_lt : p.size < 2 ^ 32
  end_le : p.base + p.size ≤ 2 ^ m
  type_lt : p.memType < 2 ^ 8

/-- One of the ranges gives the page the type. -/
def Gives (ps : List Span) (page t : ℕ) : Prop := ∃ p ∈ ps, p.memType = t ∧ p.Has page

@[simp] lemma gives_nil (page t : ℕ) : ¬Gives [] page t := fun ⟨_, h, _⟩ => by cases h

@[simp] lemma gives_cons (p : Span) (ps : List Span) (page t : ℕ) :
    Gives (p :: ps) page t ↔ (p.memType = t ∧ p.Has page) ∨ Gives ps page t := by
  simp only [Gives, List.mem_cons, or_and_right, exists_or, exists_eq_left]

section

variable (totalMtrrs : ℕ)

def writeSpans (s : VarMtrrState) (ps : List Span) : VarMtrrState :=
  ps.foldl (fun s p => calcVarMtrrRange totalMtrrs s p.base p.size p.memType) s

@[simp] lemma writeSpans_nil (s : VarMtrrState) : writeSpans totalMtrrs s [] = s := rfl

lemma writeSpans_cons (s : VarMtrrState) (p : Span) (ps : List Span) :
    writeSpans totalMtrrs s (p :: ps) =
      writeSpans totalMtrrs (calcVarMtrrRange totalMtrrs s p.base p.size p.memType) ps := rfl

lemma writeSpans_append (s : VarMtrrState) (ps qs : List Span) :
    writeSpans totalMtrrs s (ps ++ qs) = writeSpans totalMtrrs (writeSpans totalMtrrs s ps) qs :=
  List.foldl_append

/-- Only the index and the registers change, and the index does not go down. -/
lemma writeSpans_eq (s : VarMtrrState) (ps : List Span) :
    ∃ n regs, writeSpans totalMtrrs s ps = { s with mtrrIndex := s.mtrrIndex + n, regs } := by
  induction ps generalizing s with
  | nil => exact ⟨0, s.regs, rfl⟩
  | cons p ps ih =>
    obtain ⟨regs, hrange⟩ := calcVarMtrrRange_eq totalMtrrs s p.base p.size p.memType
    rw [writeSpans_cons, hrange]
    obtain ⟨n, regs', hrest⟩ := ih { s with mtrrIndex := s.mtrrIndex + rangeCount p.base p.size, regs }
    exact ⟨rangeCount p.base p.size + n, regs', by rw [hrest, Nat.add_assoc]⟩

/-- The registers give a page the types that the ranges give it. -/
lemma writeSpans_typeAt {m page t : ℕ} {s : VarMtrrState} {ps : List Span} (h : Decodable s m)
    (hpage : page < 2 ^ m) (hfits : ∀ p ∈ ps, p.Fits m)
    (hroom : (writeSpans totalMtrrs s ps).mtrrIndex ≤ totalMtrrs) :
    TypeAt (writeSpans totalMtrrs s ps).regs (writeSpans totalMtrrs s ps).mtrrIndex page t ↔
      TypeAt s.regs s.mtrrIndex page t ∨ Gives ps page t := by
  induction ps generalizing s with
  | nil => simp
  | cons p ps ih =>
    obtain ⟨hsize, hend, htype⟩ := hfits p (by simp)
    obtain ⟨regs, hrange⟩ := calcVarMtrrRange_eq totalMtrrs s p.base p.size p.memType
    rw [writeSpans_cons] at hroom ⊢
    have hfirst : (calcVarMtrrRange totalMtrrs s p.base p.size p.memType).mtrrIndex ≤
        totalMtrrs := by
      obtain ⟨n, regs', hrest⟩ :=
        writeSpans_eq totalMtrrs (calcVarMtrrRange totalMtrrs s p.base p.size p.memType) ps
      rw [hrest] at hroom
      exact (Nat.le_add_right _ n).trans hroom
    have hdecodable : Decodable (calcVarMtrrRange totalMtrrs s p.base p.size p.memType) m := by
      rw [hrange]
      exact h.of_index _ regs
    rw [ih hdecodable (fun q hq => hfits q (List.mem_cons_of_mem _ hq)) hroom, gives_cons,
      ← or_assoc]
    refine or_congr_left ?_
    rw [calcVarMtrrRange] at hfirst ⊢
    rw [calcVarMtrrLoop_typeAt p.size h le_rfl hpage htype hsize hend hfirst, Span.Has,
      eq_comm (a := t)]

end

/-! ### The ranges of an entry -/

def noHoleSpans (above4gb : Bool) (r : RangeEntry) : List Span :=
  let a1 := clippedBase r
  let c2 := clippedEnd above4gb r
  if Ignored above4gb r then []
  else if Word.sub 32 c2 a1 < MTRR_MIN_ALIGN then [⟨a1, Word.sub 32 c2 a1, rangeEntryMtrrType r⟩]
  else
    let a2 := Word.alignUp 32 a1 MTRR_MIN_ALIGN
    let c1 := Word.alignDown 32 c2 MTRR_MIN_ALIGN
    [⟨a1, Word.sub 32 a2 a1, rangeEntryMtrrType r⟩, ⟨a2, Word.sub 32 c1 a2, rangeEntryMtrrType r⟩,
      ⟨c1, Word.sub 32 c2 c1, rangeEntryMtrrType r⟩]

def holeSpans (above4gb : Bool) (defType : ℕ) (r : RangeEntry) (next : Option RangeEntry) :
    List Span :=
  let a1 := clippedBase r
  let a2 := clippedEnd above4gb r
  if Ignored above4gb r then []
  else if CoveredBeyond above4gb r next then
    [⟨a1, Word.sub 32 (Word.add 32 (1 <<< fls a1) a1) a1, rangeEntryMtrrType r⟩]
  else if NoRoom above4gb defType r next then [⟨a1, Word.sub 32 a2 a1, rangeEntryMtrrType r⟩]
  else
    let b2 := Word.alignUp 32 a2 MTRR_MIN_ALIGN
    [⟨a1, Word.sub 32 b2 a1, rangeEntryMtrrType r⟩, ⟨a2, Word.sub 32 b2 a2, defType⟩]

/-- What `commit_var_mtrrs` writes for an entry. -/
def entrySpans (above4gb : Bool) (defType : ℕ) (r : RangeEntry) (next : Option RangeEntry) :
    List Span :=
  if rangeEntryMtrrType r = defType then []
  else if defType = MTRR_TYPE_UNCACHEABLE ∧ RangeEntry.UsesHole r then
    holeSpans above4gb defType r next
  else noHoleSpans above4gb r

def spans (above4gb : Bool) (defType : ℕ) : List RangeEntry → List Span
  | [] => []
  | r :: rest => entrySpans above4gb defType r rest.head? ++ spans above4gb defType rest

lemma withoutHole_eq_writeSpans (totalMtrrs : ℕ) (s : VarMtrrState) (r : RangeEntry) :
    calcVarMtrrsWithoutHole totalMtrrs s r = writeSpans totalMtrrs s (noHoleSpans s.above4gb r) := by
  rw [withoutHole_eq, noHoleSpans]
  split_ifs <;> rfl

lemma withHole_eq_writeSpans (totalMtrrs : ℕ) (s : VarMtrrState) (r : RangeEntry)
    (next : Option RangeEntry) :
    calcVarMtrrsWithHole totalMtrrs s r next =
      writeSpans totalMtrrs s (holeSpans s.above4gb s.defMtrrType r next) := by
  rw [withHole_eq, holeSpans]
  split_ifs
  · rfl
  · rfl
  · rfl
  · obtain ⟨regs, hrange⟩ := calcVarMtrrRange_eq totalMtrrs s (clippedBase r)
      (Word.sub 32 (Word.alignUp 32 (clippedEnd s.above4gb r) MTRR_MIN_ALIGN) (clippedBase r))
      (rangeEntryMtrrType r)
    simp only [writeSpans_cons, writeSpans_nil, hrange]

lemma commitLoop_eq_writeSpans (totalMtrrs : ℕ) (s : VarMtrrState) (l : List RangeEntry) :
    commitLoop totalMtrrs s l = writeSpans totalMtrrs s (spans s.above4gb s.defMtrrType l) := by
  induction l generalizing s with
  | nil => rfl
  | cons r rest ih =>
    have hentry : ∀ ps, commitLoop totalMtrrs (writeSpans totalMtrrs s ps) rest =
        writeSpans totalMtrrs s (ps ++ spans s.above4gb s.defMtrrType rest) := by
      intro ps
      obtain ⟨n, regs, hps⟩ := writeSpans_eq totalMtrrs s ps
      rw [ih, writeSpans_append, hps]
    rw [commitLoop, spans, entrySpans]
    split_ifs with htype hhole
    · exact hentry []
    · rw [withHole_eq_writeSpans, hentry]
    · rw [withoutHole_eq_writeSpans, hentry]

lemma mem_spans {above4gb : Bool} {defType : ℕ} {l : List RangeEntry} {p : Span} :
    p ∈ spans above4gb defType l ↔
      ∃ xs r ys, l = xs ++ r :: ys ∧ p ∈ entrySpans above4gb defType r ys.head? := by
  induction l with
  | nil => simp [spans]
  | cons r rest ih =>
    rw [spans, List.mem_append, ih]
    constructor
    · rintro (h | ⟨xs, r', ys, rfl, h⟩)
      · exact ⟨[], r, rest, rfl, h⟩
      · exact ⟨r :: xs, r', ys, rfl, h⟩
    · rintro ⟨xs, r', ys, heq, h⟩
      cases xs with
      | nil =>
        obtain ⟨rfl, rfl⟩ := List.cons.inj heq
        exact Or.inl h
      | cons x xs =>
        obtain ⟨rfl, rfl⟩ := List.cons.inj heq
        exact Or.inr ⟨xs, r', ys, rfl, h⟩

end ApuBios.Mtrr
