import ApuBios.Library.Word
import ApuBios.Library.Tiling

/-!
# CBMEM

Model of `src/lib/cbmem.c`: a table of contents in front of a memory area below 4 GiB. Slot 0
describes the space that is still free, each further slot in use one section that was carved
from it.
-/

namespace ApuBios.Cbmem

def CBMEM_TOC_RESERVED : ℕ := 512
def MAX_CBMEM_ENTRIES : ℕ := 16
def CBMEM_MAGIC : ℕ := 0x434f5245
def CBMEM_ID_FREESPACE : ℕ := 0x46524545
def CBMEM_ID_NONE : ℕ := 0

/-- `struct cbmem_entry`. -/
structure CbmemEntry where
  magic : ℕ
  id : ℕ
  base : ℕ
  size : ℕ
  deriving DecidableEq, Repr

/-- A slot of the table after `memset`. -/
def CbmemEntry.zero : CbmemEntry := ⟨0, CBMEM_ID_NONE, 0, 0⟩

/-- The location of the area, as `cbmem_locate_table` reports it, and its table of contents. -/
structure CbmemArea where
  baseaddr : ℕ
  size : ℕ
  toc : List CbmemEntry
  deriving DecidableEq, Repr

/-- A value converted to a 32-bit pointer; 0 is `NULL`. -/
def toPointer (addr : ℕ) : ℕ := addr % 2 ^ 32

/-- The first slot, which `cbmem_toc[0]` names. -/
def CbmemArea.free (s : CbmemArea) : CbmemEntry := s.toc.headD .zero

def cbmemInitializeEmpty (s : CbmemArea) : CbmemArea :=
  if s.baseaddr = 0 ∨ s.size = 0 then
    s
  else
    { s with
      toc :=
        ⟨CBMEM_MAGIC, CBMEM_ID_FREESPACE, Word.add 64 s.baseaddr CBMEM_TOC_RESERVED,
          Word.sub 64 s.size CBMEM_TOC_RESERVED⟩ ::
        List.replicate (MAX_CBMEM_ENTRIES - 1) .zero }

def cbmemFind (s : CbmemArea) (id : ℕ) : ℕ :=
  if toPointer s.baseaddr = 0 then
    0
  else
    match s.toc.find? fun e => e.id == id with
    | some e => toPointer e.base
    | none => 0

/-- The state afterwards and the pointer returned. -/
def cbmemAdd (s : CbmemArea) (id size : ℕ) : CbmemArea × ℕ :=
  let p := cbmemFind s id
  if p ≠ 0 then
    (s, p)
  else if toPointer s.baseaddr = 0 then
    (s, 0)
  else if s.free.magic ≠ CBMEM_MAGIC then
    (s, 0)
  else if s.free.size < size then
    (s, 0)
  else
    let size := if Word.alignUp 64 size 512 < s.free.size then Word.alignUp 64 size 512
      else s.free.size
    match s.toc.findIdx? fun e => e.id == CBMEM_ID_NONE with
    | none => (s, 0)
    | some i =>
      let toc := s.toc.set i ⟨CBMEM_MAGIC, id, s.free.base, size⟩
      let free := toc.headD .zero
      let toc := toc.set 0 { free with
        base := Word.add 64 free.base size, size := Word.sub 64 free.size size }
      ({ s with toc := toc }, toPointer (toc.getD i .zero).base)

/-! ### Runs -/

/-- A call into the module. -/
inductive Call where
  | add (id size : ℕ)
  | find (id : ℕ)
  deriving DecidableEq, Repr

def Call.exec (s : CbmemArea) : Call → CbmemArea
  | .add id size => (cbmemAdd s id size).1
  | .find _ => s

def Call.id : Call → ℕ
  | .add id _ => id
  | .find id => id

/-- An id that names a section: neither the free space nor an empty slot. -/
def IsSectionId (id : ℕ) : Prop := id ≠ CBMEM_ID_NONE ∧ id ≠ CBMEM_ID_FREESPACE

instance (id : ℕ) : Decidable (IsSectionId id) := inferInstanceAs (Decidable (_ ∧ _))

def exec (s : CbmemArea) (calls : List Call) : CbmemArea := calls.foldl Call.exec s

/-- The state after a sequence of calls on an area that was just made empty; `garbage` is what
the memory of the table held before. -/
def run (baseaddr size : ℕ) (garbage : List CbmemEntry) (calls : List Call) : CbmemArea :=
  exec (cbmemInitializeEmpty ⟨baseaddr, size, garbage⟩) calls

/-- An area that `get_cbmem_table` can report: room for the table, and all of it below a top of
RAM that fits 32 bits. -/
def IsArea (baseaddr size : ℕ) : Prop :=
  0 < baseaddr ∧ CBMEM_TOC_RESERVED ≤ size ∧ baseaddr + size < 2 ^ 32

instance (baseaddr size : ℕ) : Decidable (IsArea baseaddr size) :=
  inferInstanceAs (Decidable (_ ∧ _))

/-- The sections in the table. -/
def CbmemArea.used (s : CbmemArea) : List CbmemEntry := s.toc.tail.filter fun e => e.id ≠ CBMEM_ID_NONE

end ApuBios.Cbmem
