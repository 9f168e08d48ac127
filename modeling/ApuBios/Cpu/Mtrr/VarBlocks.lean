import ApuBios.Cpu.Mtrr.VarTypes
import ApuBios.Library.Dyadic

/-!
# The blocks of a range

The registers that `calc_var_mtrr_range` takes for a range are the blocks that it is tiled with from
the front, each of them the largest that fits. No other aligned blocks cover the range with fewer
registers.
-/

namespace ApuBios.Mtrr

open Dyadic

/-- The block of the first register of a range. -/
def firstBlock (base size : ℕ) : Block where
  start := base
  exp := min (fms size) (fls base)
  aligned := (pow_dvd_pow 2 (min_le_right _ _)).trans (two_pow_fls_dvd base)

/-- The values of `base` and `mtrr_size` in the rounds of the loop. -/
def loopBlocks : ℕ → ℕ → ℕ → List Block
  | 0, _, _ => []
  | fuel + 1, base, size =>
    if size = 0 then []
    else firstBlock base size :: loopBlocks fuel (Word.add 32 base (mtrrSize base size))
      (Word.sub 32 size (mtrrSize base size))

def rangeBlocks (base size : ℕ) : List Block := loopBlocks size base size

section

variable (totalMtrrs : ℕ)

/-- One round of the loop. -/
def coverBlock (mtrrType : ℕ) (s : VarMtrrState) (x : Block) : VarMtrrState :=
  let s := if s.commitMtrrs then writeVarMtrr totalMtrrs s x.start x.size mtrrType else s
  { s with mtrrIndex := s.mtrrIndex + 1 }

variable {base size fuel fuel' : ℕ}

lemma firstBlock_size (base size : ℕ) : (firstBlock base size).size = mtrrSize base size :=
  (mtrrSize_eq base size).symm

/-- The loop goes through the blocks. -/
lemma calcVarMtrrLoop_eq_foldl (mtrrType fuel : ℕ) (s : VarMtrrState) (base size : ℕ) :
    calcVarMtrrLoop totalMtrrs mtrrType fuel s base size =
      (loopBlocks fuel base size).foldl (coverBlock totalMtrrs mtrrType) s := by
  induction fuel generalizing s base size with
  | zero => rfl
  | succ fuel ih =>
    rw [calcVarMtrrLoop, loopBlocks]
    by_cases hsize : size = 0
    · rw [if_pos hsize, if_pos hsize]
      rfl
    · rw [if_neg hsize, if_neg hsize, List.foldl_cons, ← ih, coverBlock, firstBlock_size]
      rfl

lemma length_loopBlocks (fuel base size : ℕ) :
    (loopBlocks fuel base size).length = loopCount fuel base size := by
  induction fuel generalizing base size with
  | zero => rfl
  | succ fuel ih =>
    rw [loopBlocks, loopCount]
    split_ifs
    · rfl
    · rw [List.length_cons, ih, Nat.add_comm]

/-- The rounds end when nothing is left, so that more than enough of them are enough. -/
lemma loopBlocks_eq (hsize : size < 2 ^ 32) (hfuel : size ≤ fuel) (hfuel' : size ≤ fuel') :
    loopBlocks fuel base size = loopBlocks fuel' base size := by
  induction fuel generalizing fuel' base size with
  | zero =>
    obtain rfl : size = 0 := by omega
    cases fuel' <;> rfl
  | succ fuel ih =>
    cases fuel' with
    | zero =>
      obtain rfl : size = 0 := by omega
      rfl
    | succ fuel' =>
      rw [loopBlocks, loopBlocks]
      by_cases hpos : size = 0
      · rw [if_pos hpos, if_pos hpos]
      · obtain ⟨k, -, hk, -, hle⟩ := mtrrSize_spec base hpos hsize
        have hone : 0 < 2 ^ k := Nat.two_pow_pos k
        rw [if_neg hpos, if_neg hpos, hk, Word.sub_eq hle hsize,
          ih (by omega) (by omega) (by omega : size - 2 ^ k ≤ fuel')]

/-- The first block is the largest that fits. -/
lemma largest_firstBlock (hpos : size ≠ 0) (hsize : size < 2 ^ 32) :
    Largest (firstBlock base size) (base + size) := by
  refine ⟨Nat.add_le_add_left ?_ base, fun y hy hend => ?_⟩
  · rw [firstBlock_size]
    obtain ⟨k, -, hk, -, hle⟩ := mtrrSize_spec base hpos hsize
    rwa [hk]
  · have hstart : y.start = base := hy
    have hle : 2 ^ y.exp ≤ size := by
      rw [hstart, Block.size] at hend
      omega
    have hexp := le_fms hpos hle
    have hfms : fms size < 32 := (Nat.log2_lt hpos).mpr hsize
    refine le_min hexp (le_fls (by omega) ?_)
    rw [← hstart]
    exact y.aligned

/-- The last block may end where 32 bits end. -/
lemma greedy_loopBlocks (hsize : size < 2 ^ 32) (hfit : base + size ≤ 2 ^ 32) (hfuel : size ≤ fuel) :
    Greedy (base + size) base (loopBlocks fuel base size) := by
  induction fuel generalizing base size with
  | zero =>
    obtain rfl : size = 0 := by omega
    exact .nil
  | succ fuel ih =>
    rw [loopBlocks]
    by_cases hpos : size = 0
    · rw [if_pos hpos, hpos]
      exact .nil
    · obtain ⟨k, -, hk, -, hle⟩ := mtrrSize_spec base hpos hsize
      have hone : 0 < 2 ^ k := Nat.two_pow_pos k
      rw [if_neg hpos, hk, Word.sub_eq hle hsize]
      refine .cons (largest_firstBlock hpos hsize) ?_
      rw [firstBlock_size, hk]
      change Greedy (base + size) (base + 2 ^ k) _
      rcases hle.eq_or_lt with heq | hlt
      · rw [← heq, Nat.sub_self]
        have hnil : ∀ base, loopBlocks fuel base 0 = [] := fun base => by cases fuel <;> rfl
        rw [hnil]
        exact .nil
      · have hend : base + 2 ^ k + (size - 2 ^ k) = base + size := by omega
        rw [Word.add_eq (by omega), ← hend]
        exact ih (by omega) (by omega) (by omega)

/-- The loop ends after the blocks of the range. They tile it, and no aligned blocks that cover it
are fewer. -/
theorem calcVarMtrrRange_minimal (mtrrType : ℕ) (s : VarMtrrState) (hsize : size < 2 ^ 32)
    (hfit : base + size ≤ 2 ^ 32) :
    (∀ fuel, size ≤ fuel → calcVarMtrrLoop totalMtrrs mtrrType fuel s base size =
      (rangeBlocks base size).foldl (coverBlock totalMtrrs mtrrType) s) ∧
    Tiling.Tiles Block.start Block.size base (rangeBlocks base size) (base + size) ∧
    Dyadic.Covers (rangeBlocks base size) base (base + size) ∧
    ∀ xs, Dyadic.Covers xs base (base + size) → (rangeBlocks base size).length ≤ xs.length := by
  have hgreedy := greedy_loopBlocks hsize hfit le_rfl
  refine ⟨fun fuel hfuel => ?_, hgreedy.tiles, covers_of_tiles hgreedy.tiles, fun xs hxs =>
    hgreedy.length_le hxs⟩
  rw [calcVarMtrrLoop_eq_foldl, loopBlocks_eq hsize hfuel le_rfl]
  rfl

/-- All registers are clear. -/
def clearState : VarMtrrState := ⟨true, 36, true, 0, 0, fun _ => ⟨⟨0, 0⟩, ⟨0, 0⟩⟩⟩

/-- The last page that 32 bits can count is in the range. -/
theorem calcVarMtrrRange_minimal_last :
    (∀ fuel, 11 ≤ fuel → calcVarMtrrLoop 8 6 fuel clearState (2 ^ 32 - 11) 11 =
      (rangeBlocks (2 ^ 32 - 11) 11).foldl (coverBlock 8 6) clearState) ∧
    Tiling.Tiles Block.start Block.size (2 ^ 32 - 11) (rangeBlocks (2 ^ 32 - 11) 11)
      (2 ^ 32 - 11 + 11) ∧
    Dyadic.Covers (rangeBlocks (2 ^ 32 - 11) 11) (2 ^ 32 - 11) (2 ^ 32 - 11 + 11) ∧
    ∀ xs, Dyadic.Covers xs (2 ^ 32 - 11) (2 ^ 32 - 11 + 11) →
      (rangeBlocks (2 ^ 32 - 11) 11).length ≤ xs.length :=
  calcVarMtrrRange_minimal 8 6 clearState (by decide) (by decide)

/-- The registers that a range takes are as few as there can be. -/
lemma rangeCount_le (hsize : size < 2 ^ 32) (hfit : base + size ≤ 2 ^ 32) {xs : List Block}
    (hxs : Dyadic.Covers xs base (base + size)) : rangeCount base size ≤ xs.length := by
  rw [rangeCount, ← length_loopBlocks]
  exact (greedy_loopBlocks hsize hfit le_rfl).length_le hxs

end

end ApuBios.Mtrr
