import ApuBios.Library.Memory
import ApuBios.Library.Word

/-!
# The heap that AGESA asks the BIOS for

Model of the heap callouts in `northbridge/amd/agesa/family14/fam14_callouts.c`. The heap begins
with a manager that holds the offsets of the first allocated and the first freed node; nodes are
linked by offsets from the start of the heap.
-/

namespace ApuBios.BiosHeap

def BIOS_HEAP_SIZE : ℕ := 0x20000

/-- `sizeof (BIOS_HEAP_MANAGER)` -/
def sizeofManager : ℕ := 8

/-- `sizeof (BIOS_BUFFER_NODE)` -/
def sizeofNode : ℕ := 12

/-- The fields of a `BIOS_BUFFER_NODE`. -/
inductive NodeField where
  | bufferHandle
  | bufferSize
  | nextNodeOffset
  deriving DecidableEq

def NodeField.pos : NodeField → ℕ
  | .bufferHandle => 0
  | .bufferSize => 4
  | .nextNodeOffset => 8

/-- The fields of the `BIOS_HEAP_MANAGER`. -/
inductive ManagerField where
  | startOfAllocatedNodes
  | startOfFreedNodes
  deriving DecidableEq

def ManagerField.pos : ManagerField → ℕ
  | .startOfAllocatedNodes => 0
  | .startOfFreedNodes => 4

/-- `AGESA_STATUS`, as far as the callouts return it. -/
inductive Status where
  | success
  | boundsChk
  deriving DecidableEq, Repr

/-- `AGESA_BUFFER_PARAMS` -/
structure BufferParams where
  bufferLength : ℕ
  bufferHandle : ℕ
  bufferPointer : ℕ
  deriving DecidableEq, Repr

/- `base` is the address that `GetHeapBase` returns. -/
variable (base : ℕ)

/-- A field of the node at `off`. -/
def get (m : Mem) (off : ℕ) (f : NodeField) : ℕ := m.readLE (Word.add 32 base (off + f.pos)) 4

def set (m : Mem) (off : ℕ) (f : NodeField) (v : ℕ) : Mem :=
  m.writeLE (Word.add 32 base (off + f.pos)) 4 v

def getManager (m : Mem) (f : ManagerField) : ℕ := m.readLE (Word.add 32 base f.pos) 4

def setManager (m : Mem) (f : ManagerField) (v : ℕ) : Mem :=
  m.writeLE (Word.add 32 base f.pos) 4 v

/-- The address of the buffer that follows the header of a node. -/
def bufferOf (off : ℕ) : ℕ := Word.add 32 base (off + sizeofNode)

def emptyHeap (m : Mem) : Mem := m.memset base 0 BIOS_HEAP_SIZE

/-! ### Allocating

No value means that a loop does not end within `fuel` rounds. -/

/-- The search for the handle in `BiosAllocateBuffer`. The result is the last node of the list,
or nothing if the handle is in use. -/
def handleLoop (m : Mem) (bufferHandle currNodeOffset currNode : ℕ) : ℕ → Option (Option ℕ)
  | 0 => none
  | fuel + 1 =>
    if currNodeOffset ≠ 0 then
      if get base m currNodeOffset .bufferHandle = bufferHandle then
        some none
      else
        handleLoop m bufferHandle (get base m currNodeOffset .nextNodeOffset) currNodeOffset fuel
    else
      some (some currNode)

/-- The search for the best fit: the offset of the node and that of the node before it. -/
def bestFitLoop (m : Mem) (need freedNodeOffset prevNodeOffset bestFit bestFitPrev : ℕ) :
    ℕ → Option (ℕ × ℕ)
  | 0 => none
  | fuel + 1 =>
    if freedNodeOffset ≠ 0 then
      let size := get base m freedNodeOffset .bufferSize
      let (bestFit, bestFitPrev) :=
        if size ≥ need then
          if bestFit = 0 then (freedNodeOffset, prevNodeOffset)
          else if get base m bestFit .bufferSize > size then (freedNodeOffset, prevNodeOffset)
          else (bestFit, bestFitPrev)
        else (bestFit, bestFitPrev)
      bestFitLoop m need (get base m freedNodeOffset .nextNodeOffset) freedNodeOffset bestFit
        bestFitPrev fuel
    else
      some (bestFit, bestFitPrev)

/-- The branch of `BiosAllocateBuffer` for the first allocation. -/
def firstAllocation (m : Mem) (p : BufferParams) : Mem × BufferParams :=
  let availableHeapSize := BIOS_HEAP_SIZE - sizeofManager
  let currNodeOffset := sizeofManager
  let m := set base m currNodeOffset .bufferHandle p.bufferHandle
  let m := set base m currNodeOffset .bufferSize p.bufferLength
  let m := set base m currNodeOffset .nextNodeOffset 0
  let p := { p with bufferPointer := bufferOf base currNodeOffset }
  -- update the remaining free space
  let size := get base m currNodeOffset .bufferSize
  let freedNodeOffset := Word.add 32 (Word.add 32 currNodeOffset size) sizeofNode
  let m := set base m freedNodeOffset .bufferSize
    (Word.sub 32 (availableHeapSize - sizeofNode) (get base m currNodeOffset .bufferSize))
  let m := set base m freedNodeOffset .nextNodeOffset 0
  let m := setManager base m .startOfAllocatedNodes currNodeOffset
  let m := setManager base m .startOfFreedNodes freedNodeOffset
  (m, p)

/-- Fragments the best fit if it is larger than needed; the result has the next free node. -/
def splitBestFit (m : Mem) (bufferLength bestFit : ℕ) : Mem × ℕ :=
  let need := Word.add 32 bufferLength sizeofNode
  if get base m bestFit .bufferSize > need then
    let nextFreeOffset := Word.add 32 (Word.add 32 bestFit bufferLength) sizeofNode
    let m := set base m nextFreeOffset .bufferSize
      (Word.sub 32 (get base m bestFit .bufferSize) need)
    (set base m nextFreeOffset .nextNodeOffset (get base m bestFit .nextNodeOffset),
      nextFreeOffset)
  else
    (m, get base m bestFit .nextNodeOffset)

/-- Moves the best fit from the list of freed nodes to the end of the allocated ones, where
`currNode` is the last. -/
def linkBestFit (m : Mem) (p : BufferParams) (currNode bestFit bestFitPrev nextFreeOffset : ℕ) :
    Mem :=
  let m :=
    if bestFit = getManager base m .startOfFreedNodes then
      setManager base m .startOfFreedNodes nextFreeOffset
    else
      set base m bestFitPrev .nextNodeOffset nextFreeOffset
  let m := set base m currNode .nextNodeOffset bestFit
  let m := set base m bestFit .bufferSize p.bufferLength
  let m := set base m bestFit .bufferHandle p.bufferHandle
  set base m bestFit .nextNodeOffset 0

def biosAllocateBuffer (m : Mem) (p : BufferParams) : Option (Status × Mem × BufferParams) :=
  let p := { p with bufferPointer := 0 }
  let start := getManager base m .startOfAllocatedNodes
  if start = 0 then
    some (.success, firstAllocation base m p)
  else
    match handleLoop base m p.bufferHandle start start BIOS_HEAP_SIZE with
    | none => none
    | some none => some (.boundsChk, m, p)
    | some (some currNode) =>
      let freedNodeOffset := getManager base m .startOfFreedNodes
      match bestFitLoop base m (Word.add 32 p.bufferLength sizeofNode) freedNodeOffset
        freedNodeOffset 0 0 BIOS_HEAP_SIZE with
      | none => none
      | some (bestFit, bestFitPrev) =>
        if bestFit = 0 then
          some (.boundsChk, m, p)
        else
          let (m, nextFreeOffset) := splitBestFit base m p.bufferLength bestFit
          some (.success, linkBestFit base m p currNode bestFit bestFitPrev nextFreeOffset,
            { p with bufferPointer := bufferOf base bestFit })

/-! ### Deallocating -/

/-- The search in `BiosDeallocateBuffer`: the node with the handle and the node before it. -/
def findLoop (m : Mem) (bufferHandle allocNodeOffset prevNodeOffset : ℕ) :
    ℕ → Option (Option (ℕ × ℕ))
  | 0 => none
  | fuel + 1 =>
    if get base m allocNodeOffset .bufferHandle ≠ bufferHandle then
      if get base m allocNodeOffset .nextNodeOffset = 0 then
        some none
      else
        findLoop m bufferHandle (get base m allocNodeOffset .nextNodeOffset) allocNodeOffset fuel
    else
      some (some (allocNodeOffset, prevNodeOffset))

/-- Removes the node from the list of allocated nodes, and clears its buffer and handle. -/
def unlink (m : Mem) (allocNodeOffset prevNodeOffset : ℕ) : Mem :=
  let m := set base m prevNodeOffset .nextNodeOffset (get base m allocNodeOffset .nextNodeOffset)
  let m := m.memset (bufferOf base allocNodeOffset) 0 (get base m allocNodeOffset .bufferSize)
  let m := set base m allocNodeOffset .bufferHandle 0
  set base m allocNodeOffset .bufferSize
    (Word.add 32 (get base m allocNodeOffset .bufferSize) sizeofNode)

/-- The search for the place in the list of freed nodes: the node before it and the next. -/
def placeLoop (m : Mem) (allocNodeOffset nextNodeOffset prevNodeOffset : ℕ) :
    ℕ → Option (ℕ × ℕ)
  | 0 => none
  | fuel + 1 =>
    if allocNodeOffset > nextNodeOffset then
      if get base m nextNodeOffset .nextNodeOffset = 0 then
        some (nextNodeOffset, nextNodeOffset)
      else
        placeLoop m allocNodeOffset (get base m nextNodeOffset .nextNodeOffset) nextNodeOffset fuel
    else
      some (prevNodeOffset, nextNodeOffset)

/-- The freed node is concatenated with the next one if they are adjacent, and linked to it
otherwise. The source spells this out in both places that add a node. -/
def joinNext (m : Mem) (allocNodeOffset nextNodeOffset endNodeOffset : ℕ) : Mem :=
  if nextNodeOffset = endNodeOffset then
    let m := set base m allocNodeOffset .bufferSize
      (Word.add 32 (get base m allocNodeOffset .bufferSize) (get base m nextNodeOffset .bufferSize))
    let m := set base m allocNodeOffset .nextNodeOffset (get base m nextNodeOffset .nextNodeOffset)
    let m := set base m nextNodeOffset .bufferSize 0
    set base m nextNodeOffset .nextNodeOffset 0
  else
    set base m allocNodeOffset .nextNodeOffset nextNodeOffset

/-- The freed node is concatenated with the previous one if they are adjacent, and linked to it
otherwise. -/
def joinPrev (m : Mem) (allocNodeOffset prevNodeOffset : ℕ) : Mem :=
  let endNodeOffset := Word.add 32 prevNodeOffset (get base m prevNodeOffset .bufferSize)
  if allocNodeOffset = endNodeOffset then
    let m := set base m prevNodeOffset .nextNodeOffset (get base m allocNodeOffset .nextNodeOffset)
    let m := set base m prevNodeOffset .bufferSize
      (Word.add 32 (get base m prevNodeOffset .bufferSize)
        (get base m allocNodeOffset .bufferSize))
    let m := set base m allocNodeOffset .bufferSize 0
    set base m allocNodeOffset .nextNodeOffset 0
  else
    set base m prevNodeOffset .nextNodeOffset allocNodeOffset

def biosDeallocateBuffer (m : Mem) (p : BufferParams) : Option (Status × Mem × BufferParams) :=
  let start := getManager base m .startOfAllocatedNodes
  match findLoop base m p.bufferHandle start start BIOS_HEAP_SIZE with
  | none => none
  | some none => some (.boundsChk, m, p)
  | some (some (allocNodeOffset, prevNodeOffset)) =>
    let m := unlink base m allocNodeOffset prevNodeOffset
    -- add deallocated node in order to the list of freed nodes
    let freedNodeOffset := getManager base m .startOfFreedNodes
    let endNodeOffset := Word.add 32 allocNodeOffset (get base m allocNodeOffset .bufferSize)
    if allocNodeOffset < freedNodeOffset then
      -- add to the start of the freed list
      let m := joinNext base m allocNodeOffset freedNodeOffset endNodeOffset
      some (.success, setManager base m .startOfFreedNodes allocNodeOffset, p)
    else
      match placeLoop base m allocNodeOffset freedNodeOffset prevNodeOffset BIOS_HEAP_SIZE with
      | none => none
      | some (prevNodeOffset, nextNodeOffset) =>
        let m := joinNext base m allocNodeOffset nextNodeOffset endNodeOffset
        some (.success, joinPrev base m allocNodeOffset prevNodeOffset, p)

/-! ### Locating -/

def locateLoop (m : Mem) (p : BufferParams) (allocNodeOffset : ℕ) :
    ℕ → Option (Status × BufferParams)
  | 0 => none
  | fuel + 1 =>
    if p.bufferHandle ≠ get base m allocNodeOffset .bufferHandle then
      if get base m allocNodeOffset .nextNodeOffset = 0 then
        some (.boundsChk, { p with bufferPointer := 0, bufferLength := 0 })
      else
        locateLoop m p (get base m allocNodeOffset .nextNodeOffset) fuel
    else
      some (.success, { p with
        bufferPointer := bufferOf base allocNodeOffset
        bufferLength := get base m allocNodeOffset .bufferSize })

def biosLocateBuffer (m : Mem) (p : BufferParams) : Option (Status × BufferParams) :=
  locateLoop base m p (getManager base m .startOfAllocatedNodes) BIOS_HEAP_SIZE

/-! ### Runs -/

/-- A buffer as the callouts described it to AGESA. -/
structure Buffer where
  handle : ℕ
  pointer : ℕ
  length : ℕ
  deriving DecidableEq, Repr

structure State where
  mem : Mem
  /-- buffers that were allocated and not deallocated since, oldest first -/
  live : List Buffer
  /-- handles that were deallocated and not allocated since -/
  freed : List ℕ

/-- The heap as `EmptyHeap` leaves it. -/
def State.init (m : Mem) : State := ⟨emptyHeap base m, [], []⟩

inductive Call where
  | allocate (handle length : ℕ)
  | deallocate (handle : ℕ)
  | locate (handle : ℕ)
  /-- AGESA stores a byte -/
  | store (addr : ℕ) (value : UInt8)
  deriving DecidableEq

/-- `UINT32` arguments, fresh handles, and stores into live buffers only. -/
def Call.Legal (s : State) : Call → Prop
  | .allocate handle length =>
    handle < 2 ^ 32 ∧ length < 2 ^ 32 ∧ ∀ b ∈ s.live, b.handle ≠ handle
  | .deallocate handle => handle < 2 ^ 32
  | .locate handle => handle < 2 ^ 32
  | .store addr _ => ∃ b ∈ s.live, b.pointer ≤ addr ∧ addr < b.pointer + b.length

def step (s : State) : Call → Option State
  | .allocate handle length =>
    (biosAllocateBuffer base s.mem ⟨length, handle, 0⟩).map fun (status, m, p) =>
      match status with
      | .success =>
        ⟨m, s.live ++ [⟨handle, p.bufferPointer, length⟩], s.freed.filter (· ≠ handle)⟩
      | .boundsChk => ⟨m, s.live, s.freed⟩
  | .deallocate handle =>
    (biosDeallocateBuffer base s.mem ⟨0, handle, 0⟩).map fun (status, m, _) =>
      match status with
      | .success => ⟨m, s.live.filter (·.handle ≠ handle), handle :: s.freed⟩
      | .boundsChk => ⟨m, s.live, s.freed⟩
  | .locate handle => (biosLocateBuffer base s.mem ⟨0, handle, 0⟩).map fun _ => s
  | .store addr value => some { s with mem := Function.update s.mem addr value }

/-- A node as it is found in memory. -/
structure Node where
  offset : ℕ
  bufferHandle : ℕ
  bufferSize : ℕ
  deriving DecidableEq, Repr

def nodeAt (m : Mem) (off : ℕ) : Node :=
  ⟨off, get base m off .bufferHandle, get base m off .bufferSize⟩

/-- The nodes of a list, if it ends. -/
def nodesFrom (m : Mem) (off : ℕ) : ℕ → Option (List Node)
  | 0 => none
  | fuel + 1 =>
    if off = 0 then
      some []
    else
      (nodesFrom m (get base m off .nextNodeOffset) fuel).map (nodeAt base m off :: ·)

def allocatedNodes (m : Mem) : Option (List Node) :=
  nodesFrom base m (getManager base m .startOfAllocatedNodes) BIOS_HEAP_SIZE

def freedNodes (m : Mem) : Option (List Node) :=
  nodesFrom base m (getManager base m .startOfFreedNodes) BIOS_HEAP_SIZE

end ApuBios.BiosHeap
