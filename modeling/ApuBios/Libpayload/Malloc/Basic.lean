import ApuBios.Library.Memory
import ApuBios.Library.Transition
import ApuBios.Library.Word

/-!
# The heap of libpayload

Model of `payloads/libpayload/libc/malloc.c`. The heap is a chain of blocks, each behind an
eight-byte header that holds its size and whether it is free. Pointers are 32 bits wide. No
region of `memalign` is in use, so that `free_aligned` finds nothing.
-/

namespace ApuBios.Malloc

open Word (ofInt toInt)

/-! ### Headers -/

def HDRSIZE : ℕ := 8

def SIZE_BITS : ℕ := (HDRSIZE <<< 3) - 7

def MAGIC : ℕ := 0x2a <<< (SIZE_BITS + 1)

def FLAG_FREE : ℕ := 0x01 <<< SIZE_BITS

def MAX_SIZE : ℕ := (0x01 <<< SIZE_BITS) - 1

/-- `SIZE` -/
def sizeOfHeader (h : ℕ) : ℕ := h &&& MAX_SIZE

/-- `_HEADER`; the size is converted to `hdrtype_t`. -/
def makeHeader (s : ℤ) (f : ℕ) : ℕ := MAGIC ||| f ||| (ofInt 64 s &&& MAX_SIZE)

def freeBlock (s : ℤ) : ℕ := makeHeader s FLAG_FREE

def usedBlock (s : ℤ) : ℕ := makeHeader s 0

def isFree (h : ℕ) : Bool := h &&& (MAGIC ||| FLAG_FREE) = MAGIC ||| FLAG_FREE

def hasMagic (h : ℕ) : Bool := h &&& MAGIC = MAGIC

/-- The memory between `_heap` and `_eheap`, as the linker script lays it out. -/
structure Region where
  hstart : ℕ
  hend : ℕ
  hstart_pos : 0 < hstart
  hstart_aligned : 8 ∣ hstart
  hend_aligned : 8 ∣ hend
  room : hstart + HDRSIZE < hend
  hend_lt : hend < 2 ^ 32
  size_lt : hend - hstart < 2 ^ 31

variable (r : Region)

def readHeader (m : Mem) (ptr : ℕ) : ℕ := m.readLE ptr HDRSIZE

def writeHeader (m : Mem) (ptr hdr : ℕ) : Mem := m.writeLE ptr HDRSIZE hdr

/-! ### Allocating -/

def setup (m : Mem) (start : ℕ) (size : ℤ) : Mem := writeHeader m start (freeBlock size)

/-- `len` after `Align the size`. -/
def alignSize (len : ℤ) : ℤ := toInt 32 (Word.alignUp 32 (ofInt 32 len) HDRSIZE)

/-- The loop of `alloc`. There is no result if a header is found that makes the allocator panic
or if the loop does not end within `fuel` rounds. A null pointer means that there is no space. -/
def allocLoop (len : ℤ) (m : Mem) (ptr : ℕ) : ℕ → Option (Mem × ℕ)
  | 0 => none
  | fuel + 1 =>
    let header := readHeader m ptr
    let size := toInt 32 (sizeOfHeader header)
    if ¬hasMagic header ∨ size = 0 then
      none
    else if header &&& FLAG_FREE ≠ 0 ∧ len ≤ size then
      let nptr := ofInt 32 (ptr + HDRSIZE + len)
      let nsize := toInt 32 (size - (HDRSIZE + len))
      let m :=
        if nsize > 0 then
          writeHeader (writeHeader m ptr (usedBlock len)) nptr (freeBlock nsize)
        else
          writeHeader m ptr (usedBlock size)
      some (m, ofInt 32 (ptr + HDRSIZE))
    else
      let ptr := ofInt 32 (ptr + HDRSIZE + size)
      if ptr < r.hend then allocLoop len m ptr fuel else some (m, 0)

def alloc (m : Mem) (len : ℤ) : Option (Mem × ℕ) :=
  let len := alignSize len
  if len = 0 ∨ ofInt 64 len > MAX_SIZE then
    some (m, 0)
  else
    let m :=
      if hasMagic (readHeader m r.hstart) then m
      else setup m r.hstart (toInt 32 (r.hend - r.hstart - HDRSIZE))
    allocLoop r len m r.hstart (r.hend - r.hstart)

/-! ### Freeing -/

/-- The inner loop of `_consolidate`. -/
def absorb (m : Mem) (nptr size : ℕ) : ℕ → Option (Mem × ℕ × ℕ)
  | 0 => none
  | fuel + 1 =>
    if nptr < r.hend then
      let nhdr := readHeader m nptr
      if ¬isFree nhdr then
        some (m, nptr, size)
      else
        let size := ofInt 32 (size + (sizeOfHeader nhdr + HDRSIZE))
        let m := writeHeader m nptr 0
        absorb m (ofInt 32 (nptr + (HDRSIZE + sizeOfHeader nhdr))) size fuel
    else
      some (m, nptr, size)

/-- The outer loop of `_consolidate`. -/
def consolidateLoop (m : Mem) (ptr : ℕ) : ℕ → Option Mem
  | 0 => none
  | fuel + 1 =>
    if ptr < r.hend then
      let hdr := readHeader m ptr
      if ¬isFree hdr then
        consolidateLoop m (ofInt 32 (ptr + (HDRSIZE + sizeOfHeader hdr))) fuel
      else
        let nptr := ofInt 32 (ptr + (HDRSIZE + sizeOfHeader hdr))
        match absorb r m nptr (ofInt 32 (sizeOfHeader hdr)) (r.hend - r.hstart) with
        | none => none
        | some (m, nptr, size) => consolidateLoop (writeHeader m ptr (freeBlock size)) nptr fuel
    else
      some m

def consolidate (m : Mem) : Option Mem := consolidateLoop r m r.hstart (r.hend - r.hstart)

def free (m : Mem) (ptr : ℕ) : Option Mem :=
  let ptr := ofInt 32 (ptr - HDRSIZE)
  if ptr < r.hstart ∨ ptr ≥ r.hend then
    some m
  else
    let hdr := readHeader m ptr
    if ¬hasMagic hdr then
      some m
    else if hdr &&& FLAG_FREE ≠ 0 then
      some m
    else
      consolidate r (writeHeader m ptr (freeBlock (sizeOfHeader hdr)))

/-! ### The interface -/

def malloc (m : Mem) (size : ℕ) : Option (Mem × ℕ) := alloc r m (toInt 32 size)

def calloc (m : Mem) (nmemb size : ℕ) : Option (Mem × ℕ) := do
  let total := ofInt 32 (nmemb * size)
  let (m, ptr) ← alloc r m (toInt 32 total)
  if ptr ≠ 0 then
    some (m.memset ptr 0 total, ptr)
  else
    some (m, ptr)

def realloc (m : Mem) (ptr size : ℕ) : Option (Mem × ℕ) :=
  if ptr = 0 then
    alloc r m (toInt 32 size)
  else
    let pptr := ofInt 32 (ptr - HDRSIZE)
    let hdr := readHeader m pptr
    if ¬hasMagic hdr then
      some (m, 0)
    else do
      let osize := ofInt 32 (sizeOfHeader hdr)
      let m ← free r m ptr
      let (m, ret) ← alloc r m (toInt 32 size)
      if ret = 0 ∨ ret = ptr then
        some (m, ret)
      else
        some (m.memcpy ret ptr (if osize > size then size else osize), ret)

/-! ### Programs that use the heap -/

/-- A block that was returned to the program. -/
structure LiveBlock where
  ptr : ℕ
  /-- the size asked for -/
  size : ℕ
  deriving DecidableEq, Repr

/-- The memory, and the blocks that are kept for the program in it. -/
structure Heap where
  mem : Mem
  held : List LiveBlock

/-- `lost` are the blocks that calls of `realloc` have released before they failed. -/
structure State extends Heap where
  lost : List LiveBlock

/-- The blocks that were returned to the program and not passed to `free`, nor to a call of `realloc`
that has succeeded, since. -/
def State.live (s : State) : List LiveBlock := s.held ++ s.lost

/-- Before the first call. -/
def initial (m : Mem) : State := ⟨⟨m, []⟩, []⟩

/-- What the program does next. `size_t` arguments are below `2 ^ 32`. -/
inductive Call where
  | malloc (size : ℕ)
  | calloc (nmemb size : ℕ)
  | realloc (ptr size : ℕ)
  | free (ptr : ℕ)
  /-- the program stores a byte -/
  | store (addr : ℕ) (value : UInt8)
  deriving DecidableEq, Repr

/-- The program passes pointers to these blocks only, and stores into them only. -/
def Call.Uses (blocks : List LiveBlock) : Call → Prop
  | .malloc size => size < 2 ^ 32
  | .calloc nmemb size => nmemb * size < 2 ^ 32
  | .realloc ptr size => size < 2 ^ 32 ∧ (ptr = 0 ∨ ∃ b ∈ blocks, b.ptr = ptr)
  | .free ptr => ptr = 0 ∨ ∃ b ∈ blocks, b.ptr = ptr
  | .store addr _ => ∃ b ∈ blocks, b.ptr ≤ addr ∧ addr < b.ptr + b.size

def Call.Legal (s : State) (c : Call) : Prop := c.Uses s.live

/-- Records a pointer that was returned. -/
def record (held : List LiveBlock) (size : ℕ) (res : Mem × ℕ) : Heap :=
  if res.2 = 0 then ⟨res.1, held⟩ else ⟨res.1, ⟨res.2, size⟩ :: held⟩

/-- The blocks without the one at `ptr`. -/
def release (blocks : List LiveBlock) (ptr : ℕ) : List LiveBlock := blocks.filter (·.ptr ≠ ptr)

/-- A null pointer for a size other than 0 means that `realloc` has failed: the program goes on with the
old block. -/
def moved (s : State) (ptr size : ℕ) (res : Mem × ℕ) : State :=
  if res.2 = 0 ∧ size ≠ 0 then
    ⟨⟨res.1, release s.held ptr⟩, s.held.filter (·.ptr = ptr) ++ s.lost⟩
  else
    ⟨record (release s.held ptr) size res, release s.lost ptr⟩

def step (s : State) : Call → Option State
  | .malloc size => (malloc r s.mem size).map fun res => ⟨record s.held size res, s.lost⟩
  | .calloc nmemb size => (calloc r s.mem nmemb size).map fun res =>
      ⟨record s.held (nmemb * size) res, s.lost⟩
  | .realloc ptr size => (realloc r s.mem ptr size).map (moved s ptr size)
  | .free ptr => (free r s.mem ptr).map fun m => ⟨⟨m, release s.held ptr⟩, release s.lost ptr⟩
  | .store addr value => some ⟨⟨Function.update s.mem addr value, s.held⟩, s.lost⟩

/-- The size passes the test at the head of `alloc`. -/
def Asks (size : ℕ) : Prop :=
  ¬(alignSize (toInt 32 size) = 0 ∨ ofInt 64 (alignSize (toInt 32 size)) > MAX_SIZE)

/-- The call asks for a block that is neither empty nor too large for an `int`. -/
def Call.Asks : Call → Prop
  | .malloc size => Malloc.Asks size
  | .calloc nmemb size => Malloc.Asks (nmemb * size)
  | .realloc _ size => Malloc.Asks size
  | .free _ | .store _ _ => False

end ApuBios.Malloc
