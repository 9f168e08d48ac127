import ApuBios.Lib.Memrange.Properties

/-!
# Memory type range registers

The definitions that the fixed and the variable registers in `src/cpu/x86/mtrr/mtrr.c` share. The
registers have a granularity of 4 KiB, and addresses are counted in these units, in 32 bits.
-/

namespace ApuBios.Mtrr

open Memrange

def MTRR_TYPE_UNCACHEABLE : ℕ := 0
def MTRR_TYPE_WRCOMB : ℕ := 1
def MTRR_TYPE_WRBACK : ℕ := 6

def RANGE_SHIFT : ℕ := 12

/-- The conversion to `uint32_t` drops the high bits. -/
def physToRangeAddr (x : ℕ) : ℕ := (x >>> RANGE_SHIFT) % 2 ^ 32

def rangeEntryBaseMtrrAddr (r : RangeEntry) : ℕ := physToRangeAddr r.begin

def rangeEntryEndMtrrAddr (r : RangeEntry) : ℕ := physToRangeAddr (Word.add 64 r.end_ 1)

lemma physToRangeAddr_eq {x : ℕ} (h : x < 2 ^ 44) : physToRangeAddr x = x / 4096 := by
  rw [physToRangeAddr, RANGE_SHIFT, Nat.shiftRight_eq_div_pow, Nat.mod_eq_of_lt (by omega)]

end ApuBios.Mtrr

/-!
# Fixed registers

Model of `calc_fixed_mtrrs` in `src/cpu/x86/mtrr/mtrr.c`: the types of the 88 fixed ranges below
1 MiB. The result is `none` when the loop leaves the array of the types or that of the descriptors.
-/

namespace ApuBios.Mtrr

open Memrange

def NUM_FIXED_RANGES : ℕ := 88

/-- `struct fixed_mtrr_desc`; the index of the register is not used here. -/
structure FixedMtrrDesc where
  begin : ℕ
  end_ : ℕ
  step : ℕ
  rangeIndex : ℕ

def fixedMtrrDesc : List FixedMtrrDesc :=
  [⟨physToRangeAddr 0x000000, physToRangeAddr 0x080000, physToRangeAddr (64 * 1024), 0⟩,
    ⟨physToRangeAddr 0x080000, physToRangeAddr 0x0C0000, physToRangeAddr (16 * 1024), 8⟩,
    ⟨physToRangeAddr 0x0C0000, physToRangeAddr 0x100000, physToRangeAddr (4 * 1024), 24⟩]

/-- `last_desc->end` -/
def lastDescEnd : ℕ := physToRangeAddr 0x100000

section

-- `MTRR_FIXED_WRBACK_BITS` depends on the configuration
variable (wrbackBits : ℕ)

/-- The type that is stored for a tag, as an `unsigned char`. -/
def fixedType (tag : ℕ) : ℕ :=
  let type := tag % 2 ^ 8
  if type = MTRR_TYPE_WRBACK then (type ||| wrbackBits) % 2 ^ 8 else type

/-- `while (begin >= desc->end) desc++`; `desc` is what remains of the array. -/
def seekDesc (begin : ℕ) : List FixedMtrrDesc → Option (List FixedMtrrDesc)
  | [] => none
  | desc :: descs => if desc.end_ ≤ begin then seekDesc begin descs else some (desc :: descs)

/-- The inner loop, for at most `fuel` rounds. -/
def fixedLoop (tag end_ : ℕ) :
    ℕ → ℕ → ℕ → List FixedMtrrDesc → List ℕ → Option (List FixedMtrrDesc × List ℕ)
  | 0, _, _, _, _ => none
  | fuel + 1, begin, typeIndex, descs, types =>
    if begin = end_ then some (descs, types)
    else match descs with
      | [] => none
      | desc :: rest =>
        if typeIndex < NUM_FIXED_RANGES then
          let types := types.set typeIndex (fixedType wrbackBits tag)
          let begin := Word.add 32 begin desc.step
          let descs := if begin = desc.end_ then rest else desc :: rest
          fixedLoop tag end_ fuel begin (typeIndex + 1) descs types
        else none

def calcFixedLoop (fuel : ℕ) :
    List RangeEntry → List FixedMtrrDesc → List ℕ → Option (List ℕ)
  | [], _, types => some types
  | r :: rs, descs, types =>
    let begin := rangeEntryBaseMtrrAddr r
    let end_ := rangeEntryEndMtrrAddr r
    if lastDescEnd ≤ begin then some types
    else
      let end_ := if lastDescEnd < end_ then lastDescEnd else end_
      match seekDesc begin descs with
      | none => none
      | some [] => none
      | some (desc :: rest) =>
        let typeIndex := desc.rangeIndex + Word.sub 32 begin desc.begin / desc.step
        match fixedLoop wrbackBits r.tag end_ fuel begin typeIndex (desc :: rest) types with
        | none => none
        | some (descs, types) => calcFixedLoop fuel rs descs types

/-- `fixed_mtrr_types` after the first call. -/
def calcFixedMtrrs (fuel : ℕ) (physAddrSpace : Memranges) : Option (List ℕ) :=
  calcFixedLoop wrbackBits fuel physAddrSpace.entries fixedMtrrDesc
    (List.replicate NUM_FIXED_RANGES MTRR_TYPE_UNCACHEABLE)

end

end ApuBios.Mtrr
