import ApuBios.Libpayload.Malloc.Basic

/-!
# Aligned blocks of libpayload

Model of `memalign`, and of `free` and `realloc` with regions of `memalign` in use. The fields of a
`struct align_region_t` are kept in a record and not in the block that `malloc` gives for it, and
the list of the regions is the list of the records. The bytes for the elements of a region are in
memory. An `int` is kept as its 32 bits.
-/

namespace ApuBios.Memalign

open Word (ofInt toInt)

open Malloc (Region LiveBlock HDRSIZE hasMagic readHeader sizeOfHeader alloc)

/-- `struct align_region_t` -/
structure AlignRegion where
  /-- where the structure is -/
  addr : ℕ
  alignment : ℕ
  start : ℕ
  size : ℕ
  startData : ℕ
  free : ℕ
  deriving DecidableEq, Repr

structure Heap where
  mem : Mem
  /-- the regions from `align_regions` on; there is none if that is null -/
  regions : List AlignRegion
  /-- how many calls of `malloc` have returned null; the code keeps no such count -/
  nulls : ℕ

variable (r : Region)

def malloc (h : Heap) (size : ℕ) : Option (Heap × ℕ) :=
  (Malloc.malloc r h.mem size).map fun x =>
    ({ h with mem := x.1, nulls := if x.2 = 0 then h.nulls + 1 else h.nulls }, x.2)

/-! ### Freeing -/

/-- The element at `p` and those before it that combine with the next are made free. -/
def unmark (m : Mem) (p : ℕ) : ℕ → Option (Mem × ℕ)
  | 0 => none
  | fuel + 1 =>
    if m p = 2 then
      (unmark (Function.update m p 0) (p + 1) fuel).map fun x => (x.1, x.2 + 1)
    else
      some (Function.update m p 0, 1)

/-- `free_aligned` from a region on; the second component is nothing if no region has the
address. -/
def freeAlignedFrom (m : Mem) (addr : ℕ) : List AlignRegion → Option (Option (Mem × List AlignRegion))
  | [] => some none
  | reg :: rest =>
    if reg.startData ≤ addr ∧ addr < Word.add 32 reg.startData reg.size then
      let i := (toInt 32 (addr - reg.startData)).tdiv (toInt 32 reg.alignment)
      (unmark m (ofInt 32 (reg.start + i)) (r.hend - r.hstart)).map fun x =>
        some (x.1, { reg with free := Word.add 32 reg.free x.2 } :: rest)
    else
      (freeAlignedFrom m addr rest).map (Option.map fun x => (x.1, reg :: x.2))

def freeAligned (h : Heap) (addr : ℕ) : Option (Option Heap) :=
  (freeAlignedFrom r h.mem addr h.regions).map
    (Option.map fun x => { h with mem := x.1, regions := x.2 })

def free (h : Heap) (ptr : ℕ) : Option Heap :=
  match freeAligned r h ptr with
  | none => none
  | some (some h) => some h
  | some none => (Malloc.free r h.mem ptr).map fun m => { h with mem := m }

/-! ### Allocating -/

/-- `sizeof(struct align_region_t)` -/
def REGION_SIZE : ℕ := 24

/-- The heap and the region, which is the first then; there is none if there is no space. -/
def allocateRegion (h : Heap) (alignment numElements : ℕ) : Option (Heap × Option AlignRegion) :=
  match malloc r h REGION_SIZE with
  | none => none
  | some (h, newRegion) =>
    if newRegion = 0 then
      some (h, none)
    else
      match malloc r h (ofInt 32 ((numElements + 1) * alignment + numElements)) with
      | none => none
      | some (h, start) =>
        if start = 0 then
          (free r h newRegion).map fun h => (h, none)
        else
          let region : AlignRegion :=
            { addr := newRegion
              alignment
              start
              startData := Word.alignDown 32 (ofInt 32 (start + numElements + alignment - 1))
                alignment
              size := ofInt 32 (numElements * alignment)
              free := numElements }
          some ({ h with
            mem := h.mem.memset start 0 numElements
            regions := region :: h.regions }, some region)

/-- `(size+align-1)/align` -/
def target (align size : ℕ) : ℕ := ofInt 32 (size + align - 1) / align

/-- The loop over the elements, with `count` free ones before `i`; it returns the first of the
elements that are taken. -/
def findFree (m : Mem) (start target i count : ℕ) : ℕ → Option ℕ
  | 0 => none
  | rest + 1 =>
    if m (start + i) = 0 then
      if count + 1 = target then some (i + 1 - (count + 1))
      else findFree m start target (i + 1) (count + 1) rest
    else
      findFree m start target (i + 1) 0 rest

/-- The block in a region, nothing if the free space in it is fragmented. -/
def takeFrom (m : Mem) (align size : ℕ) (reg : AlignRegion) : Option (Mem × AlignRegion × ℕ) :=
  let target := target align size
  (findFree m reg.start target 0 0 (reg.size / align)).map fun first =>
    let m := m.memset (reg.start + first) 2 (target - 1)
    (Function.update m (reg.start + first + target - 1) 1,
      { reg with free := Word.sub 32 reg.free target },
      ofInt 32 (reg.startData + align * first))

/-- The regions that are there are tried one after the other. -/
def lookFurther (m : Mem) (align size : ℕ) :
    List AlignRegion → Option (Mem × List AlignRegion × ℕ)
  | [] => none
  | reg :: rest =>
    match if reg.alignment = align ∧ target align size ≤ reg.free then takeFrom m align size reg
      else none with
    | some (m, reg, ptr) => some (m, reg :: rest, ptr)
    | none => (lookFurther m align size rest).map fun x => (x.1, reg :: x.2.1, x.2.2)

def numElements (align size : ℕ) : ℕ := if size < 1024 then 1024 / align else (size - 1) / align + 1

/-- A round for each region that is allocated. The first `skip` regions are not looked at. -/
def memalignLoop (align size : ℕ) : ℕ → Heap → ℕ → Option (Heap × ℕ)
  | 0, _, _ => none
  | fuel + 1, h, skip =>
    match lookFurther h.mem align size (h.regions.drop skip) with
    | some (m, regions, ptr) =>
      some ({ h with mem := m, regions := h.regions.take skip ++ regions }, ptr)
    | none =>
      match allocateRegion r h align (numElements align size) with
      | none => none
      | some (h, none) => some (h, 0)
      | some (h, some reg) =>
        match takeFrom h.mem align size reg with
        | some (m, reg, ptr) => some ({ h with mem := m, regions := reg :: h.regions.tail }, ptr)
        | none => memalignLoop align size fuel h 1

def memalign (h : Heap) (align size : ℕ) : Option (Heap × ℕ) :=
  if size = 0 then
    some (h, 0)
  else if h.regions = [] then
    match malloc r h REGION_SIZE with
    | none => none
    | some (h, alignRegions) =>
      if alignRegions = 0 then
        some (h, 0)
      else
        memalignLoop r align size (r.hend - r.hstart)
          { h with regions := [⟨alignRegions, 0, 0, 0, 0, 0⟩] } 0
  else
    memalignLoop r align size (r.hend - r.hstart) h 0

/-! ### Programs -/

/-- A block that `memalign` has returned and that was not freed since. -/
structure AlignedBlock where
  ptr : ℕ
  align : ℕ
  size : ℕ
  deriving DecidableEq, Repr

structure State where
  heap : Heap
  /-- the other blocks that were returned and not passed to `free` or `realloc` since -/
  live : List LiveBlock
  aligned : List AlignedBlock

/-- What the program does next. -/
inductive Call where
  | malloc (size : ℕ)
  | calloc (nmemb size : ℕ)
  | realloc (ptr size : ℕ)
  | free (ptr : ℕ)
  | memalign (align size : ℕ)
  /-- the program stores a byte -/
  | store (addr : ℕ) (value : UInt8)
  deriving DecidableEq, Repr

/-- A pointer that may be freed. -/
def Freeable (s : State) (ptr : ℕ) : Prop :=
  ptr = 0 ∨ (∃ b ∈ s.live, b.ptr = ptr) ∨ ∃ b ∈ s.aligned, b.ptr = ptr

/-- The program passes pointers to its blocks only, and stores into its blocks only. -/
def Call.Legal (s : State) : Call → Prop
  | .malloc size => size < 2 ^ 32
  | .calloc nmemb size => nmemb * size < 2 ^ 32
  | .realloc ptr size => size < 2 ^ 32 ∧ Freeable s ptr
  | .free ptr => Freeable s ptr
  | .memalign align size => (∃ k < 32, align = 2 ^ k) ∧ 0 < size ∧ size < 2 ^ 32
  | .store addr _ => (∃ b ∈ s.live, b.ptr ≤ addr ∧ addr < b.ptr + b.size) ∨
      ∃ b ∈ s.aligned, b.ptr ≤ addr ∧ addr < b.ptr + b.size

def calloc (s : State) (nmemb size : ℕ) : Option State :=
  (Malloc.calloc r s.heap.mem nmemb size).map fun x =>
    { s with
      heap := { s.heap with mem := x.1 }
      live := (Malloc.record s.live (nmemb * size) x).held }

/-- The program's blocks without the one at `ptr`. -/
def State.release (s : State) (ptr : ℕ) : State :=
  { s with live := Malloc.release s.live ptr, aligned := s.aligned.filter (·.ptr ≠ ptr) }

/-- The block of a new size. The argument is not freed if there is no header in front of it. -/
def realloc (s : State) (ptr size : ℕ) : Option State :=
  if ptr = 0 then
    (alloc r s.heap.mem (toInt 32 size)).map fun x =>
      { s with heap := { s.heap with mem := x.1 }, live := (Malloc.record s.live size x).held }
  else
    let pptr := ofInt 32 (ptr - HDRSIZE)
    let hdr := readHeader s.heap.mem pptr
    if ¬hasMagic hdr then
      some s
    else
      let osize := ofInt 32 (sizeOfHeader hdr)
      (free r s.heap ptr).bind fun h =>
        (alloc r h.mem (toInt 32 size)).map fun x =>
          let s := s.release ptr
          let m := if x.2 = 0 ∨ x.2 = ptr then x.1
            else x.1.memcpy x.2 ptr (if osize > size then size else osize)
          { s with heap := { h with mem := m }, live := (Malloc.record s.live size x).held }

def step (s : State) : Call → Option State
  | .malloc size => (malloc r s.heap size).map fun x =>
      { s with heap := x.1, live := (Malloc.record s.live size (x.1.mem, x.2)).held }
  | .calloc nmemb size => calloc r s nmemb size
  | .realloc ptr size => realloc r s ptr size
  | .free ptr => (free r s.heap ptr).map fun h => { s.release ptr with heap := h }
  | .memalign align size => (memalign r s.heap align size).map fun x =>
      { s with
        heap := x.1
        aligned := if x.2 = 0 then s.aligned else ⟨x.2, align, size⟩ :: s.aligned }
  | .store addr value =>
    some { s with heap := { s.heap with mem := Function.update s.heap.mem addr value } }

/-- A program begins with memory that was not set up. -/
def initial (m : Mem) : State := ⟨⟨m, [], 0⟩, [], []⟩

end ApuBios.Memalign
