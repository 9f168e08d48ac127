import ApuBios.Cpu.Mtrr.Basic

/-!
# Variable registers

Model of the variable range registers in `src/cpu/x86/mtrr/mtrr.c`. The registers needed for an
address map are first counted for both default types, which leaves the way each range is to be
covered in its tag, and then written for the default type that was chosen.
-/

namespace ApuBios.Mtrr

open Memrange

def MTRR_MIN_ALIGN : ℕ := physToRangeAddr (64 <<< 20)

def RANGE_1MB : ℕ := physToRangeAddr (1 <<< 20)

def RANGE_4GB : ℕ := 1 <<< (32 - RANGE_SHIFT)

def MTRR_TAG_MASK : ℕ := 2 ^ 8 - 1

def MTRR_RANGE_UC_USE_HOLE : ℕ := 2 ^ 8

def MTRRphysMaskValid : ℕ := 1 <<< 11

/-- `fms`: `bsr`, with 0 for 0. -/
def fms (x : ℕ) : ℕ := x.log2

/-- `fls`: `bsf`, with 32 for 0. -/
def fls (x : ℕ) : ℕ := ((List.range 32).find? x.testBit).getD 32

def rangeEntryMtrrType (r : RangeEntry) : ℕ := r.tag &&& MTRR_TAG_MASK

/-- The bit of the tag that `commit_var_mtrrs` looks at. -/
def RangeEntry.UsesHole (r : RangeEntry) : Prop := r.tag &&& MTRR_RANGE_UC_USE_HOLE ≠ 0

instance (r : RangeEntry) : Decidable (RangeEntry.UsesHole r) :=
  inferInstanceAs (Decidable (_ ≠ _))

/-- `msr_t` -/
structure Msr where
  lo : ℕ
  hi : ℕ
  deriving DecidableEq, Repr

/-- The two registers of a range. -/
structure VarMtrr where
  physBase : Msr
  physMask : Msr
  deriving DecidableEq, Repr

/-- `struct var_mtrr_state`, with the registers of the processor. -/
structure VarMtrrState where
  above4gb : Bool
  addressBits : ℕ
  commitMtrrs : Bool
  mtrrIndex : ℕ
  defMtrrType : ℕ
  regs : ℕ → VarMtrr

def clearVarMtrr (regs : ℕ → VarMtrr) (index : ℕ) : ℕ → VarMtrr :=
  Function.update regs index
    { regs index with
      physMask := { (regs index).physMask with
        lo := (regs index).physMask.lo &&& Word.not 32 MTRRphysMaskValid } }

section

-- `total_mtrrs`, the number of registers the processor has
variable (totalMtrrs : ℕ)

def writeVarMtrr (s : VarMtrrState) (base size mtrrType : ℕ) : VarMtrrState :=
  if totalMtrrs ≤ s.mtrrIndex then s
  else
    let rbase := base <<< RANGE_SHIFT
    let rsize := Word.sub 64 0 (size <<< RANGE_SHIFT)
    let mask := Word.sub 64 (1 <<< s.addressBits % 2 ^ 64) 1
    let rsize := rsize &&& mask
    { s with
      regs := Function.update s.regs s.mtrrIndex
        { physBase := ⟨rbase % 2 ^ 32 ||| mtrrType, rbase >>> 32⟩
          physMask := ⟨rsize % 2 ^ 32 ||| MTRRphysMaskValid, rsize >>> 32⟩ } }

/-- The size of the first register of a range. -/
def mtrrSize (base size : ℕ) : ℕ :=
  if fms size < fls base then 1 <<< fms size else 1 <<< fls base

/-- The loop of `calc_var_mtrr_range`, for at most `fuel` rounds. -/
def calcVarMtrrLoop (mtrrType : ℕ) : ℕ → VarMtrrState → ℕ → ℕ → VarMtrrState
  | 0, s, _, _ => s
  | fuel + 1, s, base, size =>
    if size = 0 then s
    else
      let mtrrSize := mtrrSize base size
      let s := if s.commitMtrrs then writeVarMtrr totalMtrrs s base mtrrSize mtrrType else s
      calcVarMtrrLoop mtrrType fuel { s with mtrrIndex := s.mtrrIndex + 1 }
        (Word.add 32 base mtrrSize) (Word.sub 32 size mtrrSize)

/-- Every round takes something off the size, so that `size` rounds are enough. -/
def calcVarMtrrRange (s : VarMtrrState) (base size mtrrType : ℕ) : VarMtrrState :=
  calcVarMtrrLoop totalMtrrs mtrrType size s base size

/-- `next` is the entry behind `r` in the address space. -/
def calcVarMtrrsWithHole (s : VarMtrrState) (r : RangeEntry) (next : Option RangeEntry) :
    VarMtrrState :=
  let mtrrType := rangeEntryMtrrType r
  let a1 := rangeEntryBaseMtrrAddr r
  let a2 := rangeEntryEndMtrrAddr r
  if a2 < RANGE_1MB then s
  else
    let a1 := if a1 < RANGE_1MB then 0 else a1
    if !s.above4gb ∧ RANGE_4GB ≤ a1 then s
    else
      let a2 := if !s.above4gb ∧ RANGE_4GB < a2 then RANGE_4GB else a2
      let b1 := a2
      let b2 := Word.add 32 (1 <<< fls a1) a1
      if RANGE_4GB ≤ a1 ∧ next = none ∧ a2 ≤ b2 then
        -- the last entry is covered beyond its end
        calcVarMtrrRange totalMtrrs s a1 (Word.sub 32 b2 a1) mtrrType
      else
        let b2 := Word.alignUp 32 a2 MTRR_MIN_ALIGN
        if ∃ n ∈ next, rangeEntryMtrrType n ≠ s.defMtrrType ∨ rangeEntryEndMtrrAddr n < b2 then
          calcVarMtrrRange totalMtrrs s a1 (Word.sub 32 a2 a1) mtrrType
        else
          let s := calcVarMtrrRange totalMtrrs s a1 (Word.sub 32 b2 a1) mtrrType
          calcVarMtrrRange totalMtrrs s b1 (Word.sub 32 b2 b1) s.defMtrrType

def calcVarMtrrsWithoutHole (s : VarMtrrState) (r : RangeEntry) : VarMtrrState :=
  let mtrrType := rangeEntryMtrrType r
  let a1 := rangeEntryBaseMtrrAddr r
  let c2 := rangeEntryEndMtrrAddr r
  if c2 < RANGE_1MB then s
  else
    let a1 := if a1 < RANGE_1MB then 0 else a1
    if !s.above4gb ∧ RANGE_4GB ≤ a1 then s
    else
      let c2 := if !s.above4gb ∧ RANGE_4GB < c2 then RANGE_4GB else c2
      if Word.sub 32 c2 a1 < MTRR_MIN_ALIGN then
        calcVarMtrrRange totalMtrrs s a1 (Word.sub 32 c2 a1) mtrrType
      else
        let a2 := Word.alignUp 32 a1 MTRR_MIN_ALIGN
        let c1 := Word.alignDown 32 c2 MTRR_MIN_ALIGN
        let s := calcVarMtrrRange totalMtrrs s a1 (Word.sub 32 a2 a1) mtrrType
        let s := calcVarMtrrRange totalMtrrs s a2 (Word.sub 32 c1 a2) mtrrType
        calcVarMtrrRange totalMtrrs s c1 (Word.sub 32 c2 c1) mtrrType

/-! ### Counting -/

/-- The two counts, and the entries with the tags as they are left. -/
structure Counts where
  entries : List RangeEntry
  wbDeftypeCount : ℕ
  ucDeftypeCount : ℕ
  deriving DecidableEq, Repr

/-- The loop of `__calc_var_mtrrs` -/
def calcVarMtrrsLoop (s : VarMtrrState) : List RangeEntry → Counts
  | [] => ⟨[], 0, 0⟩
  | r :: rest =>
    let mtrrType := rangeEntryMtrrType r
    let uc := { s with defMtrrType := MTRR_TYPE_UNCACHEABLE, mtrrIndex := 0 }
    let wb := { s with defMtrrType := MTRR_TYPE_WRBACK, mtrrIndex := 0 }
    let ucNoHoleCount := (calcVarMtrrsWithoutHole totalMtrrs uc r).mtrrIndex
    -- 64 is more than any range needs
    let ucHoleCount :=
      if mtrrType = MTRR_TYPE_WRBACK then
        (calcVarMtrrsWithHole totalMtrrs uc r rest.head?).mtrrIndex
      else 64
    let noHole := ucNoHoleCount < ucHoleCount
    let tail := calcVarMtrrsLoop s rest
    { entries :=
        (if mtrrType ≠ MTRR_TYPE_UNCACHEABLE ∧ ¬noHole then
          { r with tag := mtrrType ||| MTRR_RANGE_UC_USE_HOLE } else r) :: tail.entries
      wbDeftypeCount :=
        (if mtrrType ≠ MTRR_TYPE_WRBACK then
          (calcVarMtrrsWithoutHole totalMtrrs wb r).mtrrIndex else 0) + tail.wbDeftypeCount
      ucDeftypeCount :=
        (if mtrrType ≠ MTRR_TYPE_UNCACHEABLE then
          if noHole then ucNoHoleCount else ucHoleCount else 0) + tail.ucDeftypeCount }

def calcVarMtrrsCounts (regs : ℕ → VarMtrr) (addrSpace : Memranges) (above4gb : Bool)
    (addressBits : ℕ) : Counts :=
  calcVarMtrrsLoop totalMtrrs
    { above4gb, addressBits, commitMtrrs := false, mtrrIndex := 0,
      defMtrrType := MTRR_TYPE_UNCACHEABLE, regs } addrSpace.entries

/-- What `calc_var_mtrrs` leaves: the last counts and the default type it returns. -/
structure Choice where
  counts : Counts
  defType : ℕ
  deriving DecidableEq, Repr

/-- `calc_var_mtrrs`; `biosMtrrs` is `bios_mtrrs`. -/
def calcVarMtrrs (regs : ℕ → VarMtrr) (biosMtrrs : ℤ) (addrSpace : Memranges) (above4gb : Bool)
    (addressBits : ℕ) : Choice :=
  let counts := calcVarMtrrsCounts totalMtrrs regs addrSpace above4gb addressBits
  let counts :=
    if biosMtrrs < counts.wbDeftypeCount ∧ biosMtrrs < counts.ucDeftypeCount then
      calcVarMtrrsCounts totalMtrrs regs
        (memrangesUpdateTag ⟨counts.entries⟩ MTRR_TYPE_WRCOMB MTRR_TYPE_UNCACHEABLE)
        above4gb addressBits
    else counts
  ⟨counts, if counts.wbDeftypeCount < counts.ucDeftypeCount then MTRR_TYPE_WRBACK
    else MTRR_TYPE_UNCACHEABLE⟩

/-! ### Writing -/

/-- The loop of `commit_var_mtrrs` -/
def commitLoop (s : VarMtrrState) : List RangeEntry → VarMtrrState
  | [] => s
  | r :: rest =>
    if rangeEntryMtrrType r = s.defMtrrType then commitLoop s rest
    else if s.defMtrrType = MTRR_TYPE_UNCACHEABLE ∧ RangeEntry.UsesHole r then
      commitLoop (calcVarMtrrsWithHole totalMtrrs s r rest.head?) rest
    else commitLoop (calcVarMtrrsWithoutHole totalMtrrs s r) rest

/-- `for (i = index; i < total_mtrrs; i++) clear_var_mtrr(i)` -/
def clearRest (regs : ℕ → VarMtrr) (index : ℕ) : ℕ → VarMtrr :=
  (List.range' index (totalMtrrs - index)).foldl clearVarMtrr regs

/-- `mtrrIndex` of the result is the number of registers that were asked for. -/
def commitVarMtrrs (regs : ℕ → VarMtrr) (addrSpace : Memranges) (defType : ℕ) (above4gb : Bool)
    (addressBits : ℕ) : VarMtrrState :=
  let s := commitLoop totalMtrrs
    { above4gb, addressBits, commitMtrrs := true, mtrrIndex := 0, defMtrrType := defType, regs }
    addrSpace.entries
  { s with regs := clearRest totalMtrrs s.regs s.mtrrIndex }

end

end ApuBios.Mtrr

/-!
# The number of registers of a range

The registers that `calc_var_mtrr_range` takes depend on the base and the size only, whether they
are written or not. A range that is split at multiples of 64 MiB takes less than 64.
-/

namespace ApuBios.Mtrr

open Memrange

/-! ### The first register -/

lemma le_fls {n base : ℕ} (hn : n ≤ 32) (h : 2 ^ n ∣ base) : n ≤ fls base := by
  rw [fls]
  cases hfind : (List.range 32).find? base.testBit with
  | none => simpa using hn
  | some k =>
    have hk := List.find?_some hfind
    obtain ⟨c, rfl⟩ := h
    rw [Nat.testBit_two_pow_mul, Bool.and_eq_true, decide_eq_true_eq] at hk
    exact hk.1

lemma fls_eq {l base : ℕ} (hl : l < 32) (h : 2 ^ l ∣ base) (h' : ¬2 ^ (l + 1) ∣ base) :
    fls base = l := by
  obtain ⟨c, rfl⟩ := h
  have hodd : c % 2 = 1 := by
    by_contra heven
    obtain ⟨d, rfl⟩ : 2 ∣ c := by omega
    exact h' ⟨d, by ring⟩
  have hfind : (List.range 32).find? (2 ^ l * c).testBit = some l := by
    rw [List.find?_range_eq_some]
    refine ⟨?_, List.mem_range.mpr hl, fun j hj => ?_⟩
    · simp [Nat.testBit_two_pow_mul, hodd]
    · simp [Nat.testBit_two_pow_mul, hj]
  rw [fls, hfind, Option.getD_some]

lemma fms_eq {n size : ℕ} (h : 2 ^ n ≤ size) (h' : size < 2 ^ (n + 1)) : fms size = n := by
  have hpos : size ≠ 0 := by
    have : 0 < 2 ^ n := by positivity
    omega
  exact (Nat.log2_eq_iff hpos).mpr ⟨h, h'⟩

lemma le_fms {n size : ℕ} (hpos : size ≠ 0) (h : 2 ^ n ≤ size) : n ≤ fms size :=
  (Nat.le_log2 hpos).mpr h

lemma mtrrSize_eq (base size : ℕ) : mtrrSize base size = 2 ^ min (fms size) (fls base) := by
  rw [mtrrSize]
  split_ifs with h
  · rw [Nat.one_shiftLeft, min_eq_left h.le]
  · rw [Nat.one_shiftLeft, min_eq_right (not_lt.mp h)]

/-- What is left behind the first register is larger in the alignment of its base. -/
lemma dvd_add_of_not_dvd {l base : ℕ} (hl : l < 32) (h : 2 ^ l ∣ base)
    (h' : ¬2 ^ (l + 1) ∣ base) : 2 ^ (l + 1) ∣ Word.add 32 base (2 ^ l) := by
  have hdvd : 2 ^ (l + 1) ∣ base + 2 ^ l := by
    obtain ⟨c, rfl⟩ := h
    obtain ⟨d, hd⟩ : 2 ∣ c + 1 := by
      by_contra hodd
      obtain ⟨d, rfl⟩ : 2 ∣ c := by omega
      exact h' ⟨d, by ring⟩
    exact ⟨d, by rw [← Nat.mul_succ, Nat.succ_eq_add_one, hd]; ring⟩
  rw [Word.add]
  exact (Nat.dvd_mod_iff (pow_dvd_pow 2 hl)).mpr hdvd

/-! ### The rounds of the loop -/

/-- The rounds of `calc_var_mtrr_range`. -/
def loopCount : ℕ → ℕ → ℕ → ℕ
  | 0, _, _ => 0
  | fuel + 1, base, size =>
    if size = 0 then 0
    else 1 + loopCount fuel (Word.add 32 base (mtrrSize base size))
      (Word.sub 32 size (mtrrSize base size))

/-- The registers that a range takes. -/
def rangeCount (base size : ℕ) : ℕ := loopCount size base size

@[simp] lemma loopCount_zero (fuel base : ℕ) : loopCount fuel base 0 = 0 := by
  cases fuel <;> simp [loopCount]

/-- One round takes `2 ^ k` off the size. -/
lemma loopCount_le_succ {k base size count : ℕ} (fuel : ℕ) (hsize : size < 2 ^ 32)
    (hk : min (fms size) (fls base) = k) (hle : 2 ^ k ≤ size)
    (h : ∀ fuel, loopCount fuel (Word.add 32 base (2 ^ k)) (size - 2 ^ k) ≤ count) :
    loopCount fuel base size ≤ 1 + count := by
  cases fuel with
  | zero => exact Nat.zero_le _
  | succ fuel =>
    rw [loopCount]
    split_ifs with hzero
    · exact Nat.zero_le _
    · rw [mtrrSize_eq, hk, Word.sub_eq hle hsize]
      exact Nat.add_le_add_left (h fuel) 1

/-- From a base that is aligned to more than the size, each register is smaller than the one in
front of it. -/
lemma loopCount_le_of_aligned {n t base size : ℕ} (fuel : ℕ) (hn : n ≤ 32) (hbase : 2 ^ n ∣ base)
    (hlt : size < 2 ^ n) (ht : 2 ^ t ∣ size) : loopCount fuel base size ≤ n - t := by
  induction n generalizing fuel base size with
  | zero =>
    obtain rfl : size = 0 := by omega
    simp
  | succ n ih =>
    have hbase' : 2 ^ n ∣ base := (pow_dvd_pow 2 n.le_succ).trans hbase
    by_cases hsize : size < 2 ^ n
    · exact (ih fuel (by omega) hbase' hsize ht).trans (by omega)
    · have hle : 2 ^ n ≤ size := not_lt.mp hsize
      have htn : t ≤ n := by
        have := Nat.le_of_dvd (by have : 0 < 2 ^ n := by positivity
                                  omega) ht
        have := (Nat.pow_lt_pow_iff_right (by norm_num : 1 < 2)).mp (this.trans_lt hlt)
        omega
      have hk : min (fms size) (fls base) = n := by
        rw [fms_eq hle hlt, min_eq_left]
        exact (Nat.le_succ n).trans (le_fls hn hbase)
      have hpow : 2 ^ (n + 1) ≤ 2 ^ 32 := Nat.pow_le_pow_right (by norm_num) hn
      refine (loopCount_le_succ fuel (by omega) hk hle fun fuel => ?_).trans
        (by omega : 1 + (n - t) ≤ n + 1 - t)
      refine ih fuel (by omega) ?_ (by rw [pow_succ] at hlt; omega) ?_
      · rw [Word.add]
        exact (Nat.dvd_mod_iff (pow_dvd_pow 2 (by omega))).mpr (Nat.dvd_add hbase' dvd_rfl)
      · exact Nat.dvd_sub ht (pow_dvd_pow 2 htn)

/-- The registers grow up to the alignment of the base, and then shrink with the size. -/
lemma loopCount_le {l n t base size : ℕ} (fuel : ℕ) (hn : n ≤ 32) (hl : l < n)
    (hbase : 2 ^ l ∣ base) (hlt : size < 2 ^ n) (htl : t ≤ l) (ht : 2 ^ t ∣ size) :
    loopCount fuel base size ≤ (n - l) + (n - t) - 1 := by
  obtain ⟨d, hd⟩ := Nat.exists_eq_add_of_lt hl
  induction d generalizing fuel l n base size with
  | zero =>
    -- one register more may bring the size below the alignment
    obtain rfl : n = l + 1 := by omega
    by_cases hdvd : 2 ^ (l + 1) ∣ base
    · exact (loopCount_le_of_aligned fuel hn hdvd hlt ht).trans (by omega)
    · by_cases hsize : size < 2 ^ l
      · exact (loopCount_le_of_aligned fuel (by omega) hbase hsize ht).trans (by omega)
      · have hle : 2 ^ l ≤ size := not_lt.mp hsize
        have hk : min (fms size) (fls base) = l := by
          rw [fms_eq hle hlt, fls_eq (by omega) hbase hdvd, min_self]
        have hpow : 2 ^ (l + 1) ≤ 2 ^ 32 := Nat.pow_le_pow_right (by norm_num) hn
        refine (loopCount_le_succ fuel (by omega) hk hle fun fuel => ?_).trans
          (by omega : 1 + (l - t) ≤ l + 1 - l + (l + 1 - t) - 1)
        refine loopCount_le_of_aligned fuel (by omega) ?_ (by rw [pow_succ] at hlt; omega)
          (Nat.dvd_sub ht (pow_dvd_pow 2 htl))
        exact (pow_dvd_pow 2 l.le_succ).trans (dvd_add_of_not_dvd (by omega) hbase hdvd)
  | succ d ih =>
    by_cases hdvd : 2 ^ (l + 1) ∣ base
    · exact (ih fuel hn (by omega) hdvd hlt (by omega) ht (by omega)).trans (by omega)
    · by_cases hsize : size < 2 ^ (n - 1)
      · exact (ih fuel (by omega) (by omega) hbase hsize htl ht (by omega)).trans (by omega)
      · have hle : 2 ^ l ≤ size :=
          (Nat.pow_le_pow_right (by norm_num) (by omega)).trans (not_lt.mp hsize)
        have hk : min (fms size) (fls base) = l := by
          rw [fms_eq (not_lt.mp hsize) (by rwa [Nat.sub_add_cancel (by omega)]),
            fls_eq (by omega) hbase hdvd]
          omega
        have hpow : 2 ^ n ≤ 2 ^ 32 := Nat.pow_le_pow_right (by norm_num) hn
        refine (loopCount_le_succ fuel (by omega) hk hle fun fuel => ?_).trans
          (by omega : 1 + ((n - (l + 1)) + (n - t) - 1) ≤ (n - l) + (n - t) - 1)
        exact ih fuel hn (by omega) (dvd_add_of_not_dvd (by omega) hbase hdvd) (by omega)
          (by omega) (Nat.dvd_sub ht (pow_dvd_pow 2 htl)) (by omega)

/-- Up to the next multiple of `2 ^ n` the registers only grow. -/
lemma loopCount_le_of_aligned_end {n t base size : ℕ} (fuel : ℕ) (hn : n ≤ 32) (htn : t ≤ n)
    (hbase : 2 ^ t ∣ base) (ht : 2 ^ t ∣ size) (hend : 2 ^ n ∣ base + size)
    (hlt : size < 2 ^ n) : loopCount fuel base size ≤ n - t := by
  obtain ⟨d, hd⟩ := Nat.exists_eq_add_of_le htn
  induction d generalizing fuel t base size with
  | zero =>
    obtain rfl : n = t := hd
    obtain rfl : size = 0 := Nat.eq_zero_of_dvd_of_lt ht hlt
    simp
  | succ d ih =>
    have hsum : 2 ^ (t + 1) ∣ base + size := (pow_dvd_pow 2 (by omega)).trans hend
    by_cases hdvd : 2 ^ (t + 1) ∣ base
    · exact (ih fuel (by omega) hdvd ((Nat.dvd_add_right hdvd).mp hsum) hend hlt
        (by omega)).trans (by omega)
    · have hpos : size ≠ 0 := by
        rintro rfl
        exact hdvd hsum
      have hle : 2 ^ t ≤ size := Nat.le_of_dvd (Nat.pos_of_ne_zero hpos) ht
      have hk : min (fms size) (fls base) = t := by
        rw [fls_eq (by omega) hbase hdvd, min_eq_right (le_fms hpos hle)]
      have hpow : 2 ^ n ≤ 2 ^ 32 := Nat.pow_le_pow_right (by norm_num) hn
      have hbase' : 2 ^ (t + 1) ∣ Word.add 32 base (2 ^ t) :=
        dvd_add_of_not_dvd (by omega) hbase hdvd
      have hrest : base + 2 ^ t + (size - 2 ^ t) = base + size := by omega
      have hend' : 2 ^ n ∣ Word.add 32 base (2 ^ t) + (size - 2 ^ t) := by
        rw [Word.add, Nat.dvd_iff_mod_eq_zero, Nat.add_mod,
          Nat.mod_mod_of_dvd _ (pow_dvd_pow 2 hn), ← Nat.add_mod, hrest]
        exact Nat.mod_eq_zero_of_dvd hend
      have hsum' := (pow_dvd_pow 2 (by omega : t + 1 ≤ n)).trans hend'
      refine (loopCount_le_succ fuel (by omega) hk hle fun fuel => ?_).trans
        (by omega : 1 + (n - (t + 1)) ≤ n - t)
      exact ih fuel (by omega) hbase' ((Nat.dvd_add_right hbase').mp hsum') hend' (by omega)
        (by omega)

/-! ### Rounds and registers -/

section

variable (totalMtrrs : ℕ)

/-- Only the index and the registers change. -/
lemma writeVarMtrr_eq (s : VarMtrrState) (base size mtrrType : ℕ) :
    ∃ regs, writeVarMtrr totalMtrrs s base size mtrrType = { s with regs } := by
  rw [writeVarMtrr]
  split_ifs
  · exact ⟨s.regs, rfl⟩
  · exact ⟨_, rfl⟩

lemma calcVarMtrrLoop_eq (mtrrType fuel : ℕ) (s : VarMtrrState) (base size : ℕ) :
    ∃ regs, calcVarMtrrLoop totalMtrrs mtrrType fuel s base size =
      { s with mtrrIndex := s.mtrrIndex + loopCount fuel base size, regs } := by
  induction fuel generalizing s base size with
  | zero => exact ⟨s.regs, rfl⟩
  | succ fuel ih =>
    rw [calcVarMtrrLoop, loopCount]
    split_ifs with hsize hcommit
    · exact ⟨s.regs, rfl⟩
    · obtain ⟨regs, hwrite⟩ :=
        writeVarMtrr_eq totalMtrrs s base (mtrrSize base size) mtrrType
      obtain ⟨regs', hloop⟩ := ih { s with regs, mtrrIndex := s.mtrrIndex + 1 }
        (Word.add 32 base (mtrrSize base size)) (Word.sub 32 size (mtrrSize base size))
      exact ⟨regs', by simp only [hwrite, hloop, Nat.add_assoc]⟩
    · obtain ⟨regs', hloop⟩ := ih { s with mtrrIndex := s.mtrrIndex + 1 }
        (Word.add 32 base (mtrrSize base size)) (Word.sub 32 size (mtrrSize base size))
      exact ⟨regs', by simp only [hloop, Nat.add_assoc]⟩

lemma calcVarMtrrRange_eq (s : VarMtrrState) (base size mtrrType : ℕ) :
    ∃ regs, calcVarMtrrRange totalMtrrs s base size mtrrType =
      { s with mtrrIndex := s.mtrrIndex + rangeCount base size, regs } :=
  calcVarMtrrLoop_eq totalMtrrs mtrrType size s base size

end

end ApuBios.Mtrr
