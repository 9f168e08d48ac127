import ApuBios.Library.Word

/-!
# Resource lists

Model of the functions in `device/device_util.c` that keep the resources of a device in a list, and
of `memalign` in `lib/malloc.c`, which the resources come from. Pointers are addresses; a structure
is a record at its address, and no two structures overlap.
-/

namespace ApuBios.ResourceList

abbrev DeviceId := ℕ

/-- `struct resource` -/
structure Resource where
  base : ℕ
  size : ℕ
  limit : ℕ
  next : ℕ
  flags : BitVec 32
  index : ℕ
  align : ℕ
  gran : ℕ
  deriving DecidableEq, Repr

/-- `sizeof(struct resource)` -/
def sizeofResource : ℕ := 40

def IORESOURCE_FIXED : BitVec 32 := 0x80000000

/-- What `memset` leaves. -/
def Resource.zero : Resource := ⟨0, 0, 0, 0, 0, 0, 0, 0⟩

structure State where
  /-- `resource_list` of each device -/
  resourceList : DeviceId → ℕ
  freeResources : ℕ
  mem : ℕ → Resource
  freeMemPtr : ℕ
  /-- the resources there have been so far; the code keeps no such list -/
  allocated : List ℕ

/-- What ends the program. -/
inductive Halt where
  | die
  /-- a loop that goes on for more rounds than there are addresses -/
  | loops
  deriving DecidableEq, Repr

/-- More rounds than a list without a cycle has nodes. -/
def MAX_ROUNDS : ℕ := 2 ^ 32

def State.set (s : State) (res : ℕ) (r : Resource) : State :=
  { s with mem := Function.update s.mem res r }

def State.setNext (s : State) (res next : ℕ) : State :=
  s.set res { s.mem res with next }

/-! ### Memory -/

/-- `free_mem_end_ptr` is `eheap`. -/
def memalign (eheap boundary size : ℕ) (s : State) : Except Halt (State × ℕ) :=
  let p := Word.alignUp 32 s.freeMemPtr boundary
  let freeMemPtr := Word.add 32 p size
  if freeMemPtr ≥ eheap then
    .error .die
  else
    .ok ({ s with freeMemPtr }, p)

def malloc (eheap size : ℕ) : State → Except Halt (State × ℕ) := memalign eheap 8 size

/-- `&new_res_list[i]` -/
def element (newResList : ℕ) (i : ℕ) : ℕ := newResList + i * sizeofResource

def allocateMoreResources (eheap : ℕ) (s : State) : Except Halt State := do
  let (s, newResList) ← malloc eheap (64 * sizeofResource) s
  if newResList = 0 then
    .error .die
  else
    let s := (List.range 64).foldl (fun s i => s.set (element newResList i) .zero) s
    let s := (List.range (64 - 1)).foldl
      (fun s i => s.setNext (element newResList i) (element newResList (i + 1))) s
    pure { s with
      freeResources := newResList
      allocated := s.allocated ++ (List.range 64).map (element newResList) }

/-! ### Lists -/

def freeResource (dev : DeviceId) (res prev : ℕ) (s : State) : State :=
  let next := (s.mem res).next
  let s := if prev ≠ 0 then s.setNext prev next
    else { s with resourceList := Function.update s.resourceList dev next }
  let s := s.setNext res s.freeResources
  { s with freeResources := res }

def compactLoop (dev : DeviceId) : (rounds : ℕ) → (res prev : ℕ) → State → Except Halt State
  | 0, _, _, _ => .error .loops
  | rounds + 1, res, prev, s =>
    if res = 0 then
      .ok s
    else
      let next := (s.mem res).next
      if (s.mem res).flags = 0 then
        compactLoop dev rounds next prev (freeResource dev res prev s)
      else
        compactLoop dev rounds next res s

def compactResources (dev : DeviceId) (s : State) : Except Halt State :=
  compactLoop dev MAX_ROUNDS (s.resourceList dev) 0 s

def probeLoop (index : ℕ) (s : State) : (rounds : ℕ) → (res : ℕ) → Except Halt ℕ
  | 0, _ => .error .loops
  | rounds + 1, res =>
    if res = 0 then
      .ok res
    else if (s.mem res).index = index then
      .ok res
    else
      probeLoop index s rounds (s.mem res).next

def probeResource (dev : DeviceId) (index : ℕ) (s : State) : Except Halt ℕ :=
  probeLoop index s MAX_ROUNDS (s.resourceList dev)

/-- `while (tail->next) tail = tail->next;` -/
def tailLoop (s : State) : (rounds : ℕ) → (tail : ℕ) → Except Halt ℕ
  | 0, _ => .error .loops
  | rounds + 1, tail =>
    if (s.mem tail).next = 0 then .ok tail else tailLoop s rounds (s.mem tail).next

/-- The first free resource is put at the end of the list of the device. -/
def takeFree (dev : DeviceId) (s : State) : Except Halt (State × ℕ) := do
  let resource := s.freeResources
  let s := { s with freeResources := (s.mem resource).next }
  let s := s.set resource .zero
  let tail := s.resourceList dev
  if tail ≠ 0 then
    let tail ← tailLoop s MAX_ROUNDS tail
    pure (s.setNext tail resource, resource)
  else
    pure ({ s with resourceList := Function.update s.resourceList dev resource }, resource)

/-- The part of `new_resource` for an index that is not in the list. -/
def addResource (eheap : ℕ) (dev : DeviceId) (s : State) : Except Halt (State × ℕ) := do
  let s ← if s.freeResources = 0 then allocateMoreResources eheap s else pure s
  takeFree dev s

/-- The values that `new_resource` initializes a resource to. -/
def Resource.initValues (index : ℕ) (r : Resource) : Resource :=
  let r := if r.flags &&& IORESOURCE_FIXED = 0 then { r with flags := 0, base := 0 } else r
  { r with size := 0, limit := 0, index, align := 0, gran := 0 }

def newResource (eheap : ℕ) (dev : DeviceId) (index : ℕ) (s : State) :
    Except Halt (State × ℕ) := do
  let s ← compactResources dev s
  let resource ← probeResource dev index s
  (if resource = 0 then addResource eheap dev s else pure (s, resource)).map fun (s, resource) =>
    (s.set resource ((s.mem resource).initValues index), resource)

def findResource (dev : DeviceId) (index : ℕ) (s : State) : Except Halt ℕ := do
  let resource ← probeResource dev index s
  if resource = 0 then .error .die else pure resource

/-! ### Runs -/

/-- What the drivers do. -/
inductive Op where
  | newResource (dev : DeviceId) (index : ℕ)
  | findResource (dev : DeviceId) (index : ℕ)
  | probeResource (dev : DeviceId) (index : ℕ)
  | compactResources (dev : DeviceId)
  /-- a resource gets other values; no driver changes `next` or `index` -/
  | write (res : ℕ) (base size limit : ℕ) (flags : BitVec 32) (align gran : ℕ)
  /-- memory for something else, aligned to `2 ^ pow` -/
  | memalign (pow size : ℕ)

/-- The memory asked for is so little that the addresses do not wrap around. -/
def Op.Fits (eheap : ℕ) : Op → Prop
  | .memalign pow size => pow ≤ 32 ∧ eheap + 2 ^ pow + size ≤ 2 ^ 32
  | _ => True

def step (eheap : ℕ) (s : State) : Op → Except Halt State
  | .newResource dev index => (newResource eheap dev index s).map Prod.fst
  | .findResource dev index => (findResource dev index s).map fun _ => s
  | .probeResource dev index => (probeResource dev index s).map fun _ => s
  | .compactResources dev => compactResources dev s
  | .write res base size limit flags align gran =>
    .ok (s.set res { s.mem res with base, size, limit, flags, align, gran })
  | .memalign pow size => (memalign eheap (2 ^ pow) size s).map Prod.fst

def run (eheap : ℕ) (s : State) (ops : List Op) : Except Halt State := ops.foldlM (step eheap) s

end ApuBios.ResourceList
