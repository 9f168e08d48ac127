import ApuBios.Library.Word

/-!
# The resource allocator

Model of `compute_resources`, `allocate_resources` and the functions around them in
`device/device.c` and `device/device_util.c`. The pointers that make up the device tree are
fixed; the resources they lead to are kept in a store.
-/

namespace ApuBios.Allocator

abbrev BusId := ℕ
abbrev DeviceId := ℕ
abbrev ResourceId := ℕ

/-! ### Resources -/

def IORESOURCE_IO : BitVec 32 := 0x00000100
def IORESOURCE_MEM : BitVec 32 := 0x00000200
def IORESOURCE_PREFETCH : BitVec 32 := 0x00001000
def IORESOURCE_SUBTRACTIVE : BitVec 32 := 0x00040000
def IORESOURCE_BRIDGE : BitVec 32 := 0x00080000
def IORESOURCE_STORED : BitVec 32 := 0x20000000
def IORESOURCE_ASSIGNED : BitVec 32 := 0x40000000
def IORESOURCE_FIXED : BitVec 32 := 0x80000000

/-- `CONFIG_PCI_64BIT_PREF_MEM` is not set. -/
def MEM_MASK : BitVec 32 := IORESOURCE_MEM
def IO_MASK : BitVec 32 := IORESOURCE_IO
def PREF_TYPE : BitVec 32 := IORESOURCE_PREFETCH ||| IORESOURCE_MEM
def MEM_TYPE : BitVec 32 := IORESOURCE_MEM
def IO_TYPE : BitVec 32 := IORESOURCE_IO

structure Resource where
  base : ℕ
  size : ℕ
  limit : ℕ
  flags : BitVec 32
  index : ℕ
  align : ℕ
  gran : ℕ
  deriving DecidableEq, Repr

/-- A test such as `resource->flags & IORESOURCE_IO`. -/
def Resource.has (r : Resource) (flag : BitVec 32) : Bool := r.flags &&& flag != 0

def Resource.matches (r : Resource) (typeMask type : BitVec 32) : Bool :=
  r.flags &&& typeMask == type

def IOINDEX_LINK (idx : ℕ) : ℕ := (idx &&& 0xf0000) >>> 16

def IOINDEX_SUBTRACTIVE_LINK (idx : ℕ) : ℕ := idx &&& 0xff

abbrev Store := ResourceId → Resource

/-- The pointers of the device tree. -/
structure Topology where
  /-- `children` of a bus -/
  children : BusId → List DeviceId
  enabled : DeviceId → Bool
  /-- whether `path.type` is `DEVICE_PATH_DOMAIN` -/
  isDomain : DeviceId → Bool
  /-- `resource_list` of a device -/
  resourceList : DeviceId → List ResourceId
  /-- `link_list` of a device -/
  linkList : DeviceId → List BusId
  linkNum : BusId → ℕ

variable (t : Topology)

/-- The first link with the number. -/
def findLink (dev : DeviceId) (num : ℕ) : Option BusId :=
  (t.linkList dev).find? fun link => t.linkNum link == num

def round (val pow : ℕ) : ℕ := Word.alignUp 64 val (2 ^ pow)

/-! ### Searching

No value means that the tree is nested more than `depth` levels deep. -/

/-- The resources of a device for which `search_bus_resources` calls `search`. -/
def searchDevice (search : BusId → Option (List ResourceId)) (s : Store) (typeMask type : BitVec 32)
    (dev : DeviceId) : List ResourceId → Option (List ResourceId)
  | [] => some []
  | res :: rest =>
    if !(s res).matches typeMask type then
      searchDevice search s typeMask type dev rest
    else if (s res).has IORESOURCE_SUBTRACTIVE then
      match findLink t dev (IOINDEX_SUBTRACTIVE_LINK (s res).index) with
      | none => some []
      | some subbus =>
        (search subbus).bind fun found =>
          (searchDevice search s typeMask type dev rest).map (found ++ ·)
    else
      (searchDevice search s typeMask type dev rest).map (res :: ·)

def concat : List (Option (List ResourceId)) → Option (List ResourceId)
  | [] => some []
  | x :: xs => x.bind fun found => (concat xs).map (found ++ ·)

/-- The resources for which `search_bus_resources` calls `search`, in order. -/
def searchBusResources (s : Store) (typeMask type : BitVec 32) :
    (depth : ℕ) → BusId → Option (List ResourceId)
  | 0, _ => none
  | depth + 1, bus => concat ((t.children bus).map fun curdev =>
      if !t.enabled curdev then
        some []
      else
        searchDevice t (searchBusResources s typeMask type depth) s typeMask type curdev
          (t.resourceList curdev))

/-- `struct pick_largest_state`; the device that is found along with the resource is only
printed. -/
structure PickLargestState where
  last : Option ResourceId
  result : Option ResourceId
  seenLast : Bool

def pickLargestResource (s : Store) (state : PickLargestState) (resource : ResourceId) :
    PickLargestState :=
  if state.last = some resource then
    { state with seenLast := true }
  else if (s resource).has IORESOURCE_FIXED then
    state
  else if state.last.any fun last =>
      (s last).align < (s resource).align ||
      ((s last).align == (s resource).align && (s last).size < (s resource).size) ||
      ((s last).align == (s resource).align && (s last).size == (s resource).size &&
        !state.seenLast) then
    state
  else if state.result.all fun result =>
      (s result).align < (s resource).align ||
      ((s result).align == (s resource).align && (s result).size < (s resource).size) then
    { state with result := some resource }
  else
    state

/-- The arguments of `compute_resources` and `allocate_resources`. -/
structure Window where
  bus : BusId
  bridge : ResourceId
  typeMask : BitVec 32
  type : BitVec 32

/-- The resources on the bus of a window. -/
def Window.resources (depth : ℕ) (s : Store) (w : Window) : Option (List ResourceId) :=
  searchBusResources t s w.typeMask w.type depth w.bus

def largestResource (depth : ℕ) (s : Store) (w : Window) (last : Option ResourceId) :
    Option (Option ResourceId) :=
  (w.resources t depth s).map fun found =>
    (found.foldl (pickLargestResource s) ⟨last, none, false⟩).result

/-- The loop `while ((dev = largest_resource(bus, &resource, type_mask, type)))`. A loop that goes
on for more rounds than there are resources on the bus does not end. -/
def whileLargest {σ : Type} (depth : ℕ) (w : Window) (store : σ → Store) (body : ResourceId → σ → σ) :
    (rounds : ℕ) → Option ResourceId → σ → Option σ
  | 0, _, _ => none
  | rounds + 1, resource, x =>
    match largestResource t depth (store x) w resource with
    | none => none
    | some none => some x
    | some (some resource) =>
      whileLargest depth w store body rounds (some resource) (body resource x)

def forLargest {σ : Type} (depth : ℕ) (w : Window) (store : σ → Store) (body : ResourceId → σ → σ)
    (x : σ) : Option σ :=
  (w.resources t depth (store x)).bind fun found =>
    whileLargest t depth w store body (found.length + 1) none x

/-- The windows of the bridges on the bus, nothing in place of one whose link is missing. The
flags and the index that are looked at here are never changed. -/
def Window.children (s : Store) (w : Window) : List (Option Window) :=
  (t.children w.bus).flatMap fun dev =>
    if t.linkList dev = [] then
      []
    else
      ((t.resourceList dev).filter fun childBridge =>
        (s childBridge).has IORESOURCE_BRIDGE && (s childBridge).matches w.typeMask w.type).map
      fun childBridge =>
        (findLink t dev (IOINDEX_LINK (s childBridge).index)).map fun link =>
          ⟨link, childBridge, w.typeMask ||| IORESOURCE_PREFETCH,
            w.type ||| ((s childBridge).flags &&& IORESOURCE_PREFETCH)⟩

/-! ### Computing and allocating -/

/-- Only 0x00 - 0xff can be used out of each 0x400 block of I/O space, and nothing in the VGA
range. -/
def skipAliases (base : ℕ) : ℕ :=
  if base &&& 0x300 ≠ 0 then
    Word.add 64 (base &&& Word.not 64 0x3ff) 0x400
  else if 0x3b0 ≤ base ∧ base ≤ 0x3df then
    0x3e0
  else
    base

def Store.modify (s : Store) (r : ResourceId) (f : Resource → Resource) : Store :=
  Function.update s r (f (s r))

/-- The body of the loop in `compute_resources`. -/
def computeResource (bridge resource : ResourceId) : Store × ℕ → Store × ℕ
  | (s, base) =>
    if (s resource).size = 0 then
      (s, base)
    else
      let s := if (s resource).align > (s bridge).align then
        s.modify bridge fun b => { b with align := (s resource).align } else s
      let s := if (s bridge).limit > (s resource).limit then
        s.modify bridge fun b => { b with limit := (s resource).limit } else s
      let base := if (s resource).has IORESOURCE_IO then skipAliases base else base
      let base := round base (s resource).align
      (s.modify resource fun r => { r with base := base }, Word.add 64 base (s resource).size)

/-- Runs `f` on every window, unless a link is missing: the source goes on with a null pointer. -/
def forWindows {σ : Type} (f : Window → σ → Option σ) : List (Option Window) → σ → Option σ
  | [], x => some x
  | none :: _, _ => none
  | some w :: ws, x => (f w x).bind (forWindows f ws)

def computeResources : (depth : ℕ) → Window → Store → Option Store
  | 0, _, _ => none
  | depth + 1, w, s =>
    let base := round (s w.bridge).base (s w.bridge).align
    (forWindows (computeResources depth) (w.children t s) s).bind fun s =>
      (forLargest t (depth + 1) w Prod.fst (computeResource w.bridge) (s, base)).map
        fun (s, base) =>
          s.modify w.bridge fun b => { b with
            size := Word.sub 64 (round base b.gran) (round b.base b.align) }

structure AllocateState where
  store : Store
  base : ℕ
  /-- the resources for which "Resource didn't fit" is printed -/
  didntFit : List ResourceId

/-- The body of the loop in `allocate_resources`. -/
def allocateResource (bridge resource : ResourceId) (x : AllocateState) : AllocateState :=
  let s := x.store
  let s := if (s resource).limit > (s bridge).limit then
    s.modify resource fun r => { r with limit := (s bridge).limit } else s
  if (s resource).size = 0 then
    { x with
      store := s.modify resource fun r =>
        { r with base := r.limit, flags := r.flags ||| IORESOURCE_ASSIGNED } }
  else
    let base := if (s resource).has IORESOURCE_IO then skipAliases x.base else x.base
    if Word.sub 64 (Word.add 64 (round base (s resource).align) (s resource).size) 1 ≤
        (s resource).limit then
      let base := round base (s resource).align
      { x with
        store := s.modify resource fun r => { r with
          base := base
          flags := (r.flags ||| IORESOURCE_ASSIGNED) &&& ~~~IORESOURCE_STORED }
        base := Word.add 64 base (s resource).size }
    else
      { x with store := s, base := base, didntFit := x.didntFit ++ [resource] }

/-- The result has the resources that did not fit. -/
def allocateResources : (depth : ℕ) → Window → Store × List ResourceId →
    Option (Store × List ResourceId)
  | 0, _, _ => none
  | depth + 1, w, (s, didntFit) =>
    (forLargest t (depth + 1) w AllocateState.store (allocateResource w.bridge)
      ⟨s, (s w.bridge).base, didntFit⟩).bind fun x =>
        let s := x.store.modify w.bridge fun b => { b with flags := b.flags ||| IORESOURCE_ASSIGNED }
        forWindows (allocateResources depth) (w.children t s) (s, x.didntFit)

end ApuBios.Allocator
