import ApuBios.Device.Allocator.Basic

/-!
# Configuring the domains

Model of `dev_configure` and of the functions that keep the windows of the domains clear of fixed
resources. The store is the one after `read_resources`; what `assign_resources` does with the
result is left out.
-/

namespace ApuBios.Allocator

variable (t : Topology)

/-- The part of `struct resource` that `struct constraints` uses. -/
structure Limit where
  base : ℕ
  limit : ℕ
  deriving DecidableEq, Repr

structure Constraints where
  pref : Limit
  io : Limit
  mem : Limit
  deriving DecidableEq, Repr

/-- Applies `f` to the member of the constraints that a resource belongs to. -/
def Constraints.update (limits : Constraints) (res : Resource) (f : Limit → Limit) : Constraints :=
  if res.matches MEM_MASK PREF_TYPE then
    { limits with pref := f limits.pref }
  else if res.matches MEM_MASK MEM_TYPE then
    { limits with mem := f limits.mem }
  else if res.matches IO_MASK IO_TYPE then
    { limits with io := f limits.io }
  else
    limits

/-- The member of the constraints that a resource belongs to. -/
def Constraints.of (limits : Constraints) (res : Resource) : Option Limit :=
  if res.matches MEM_MASK PREF_TYPE then
    some limits.pref
  else if res.matches MEM_MASK MEM_TYPE then
    some limits.mem
  else if res.matches IO_MASK IO_TYPE then
    some limits.io
  else
    none

/-- Chooses to be above or below a fixed resource. The check is signed. -/
def Limit.constrain (res : Resource) (lim : Limit) : Limit :=
  let last := Word.sub 64 (Word.add 64 res.base res.size) 1
  if last < lim.base ∨ lim.limit < res.base then
    lim
  else if Word.toInt 64 (Word.sub 64 lim.limit last) > Word.toInt 64 (Word.sub 64 res.base lim.base) then
    { lim with base := Word.add 64 res.base res.size }
  else
    { lim with limit := Word.sub 64 res.base 1 }

/-- The body of the loop over the resources of a device. -/
def constrainResource (s : Store) (limits : Constraints) (res : ResourceId) : Constraints :=
  if !(s res).has IORESOURCE_FIXED then
    limits
  else if (s res).size = 0 then
    limits
  else
    limits.update (s res) (Limit.constrain (s res))

def constrainResources (s : Store) : (depth : ℕ) → DeviceId → Constraints → Option Constraints
  | 0, _, _ => none
  | depth + 1, dev, limits =>
    let limits := (t.resourceList dev).foldl (constrainResource s) limits
    (t.linkList dev).foldlM (fun limits link =>
      (t.children link).foldlM (fun limits child =>
        if t.enabled child then constrainResources s depth child limits else some limits) limits)
      limits

def maximumSize : Limit := ⟨0, 0xffffffffffffffff⟩

/-- Lowers the limit to that of a resource of the domain. -/
def initialLimit (s : Store) (limits : Constraints) (res : ResourceId) : Constraints :=
  let lower (lim : Limit) : Limit :=
    if (s res).limit < lim.limit then { lim with limit := (s res).limit } else lim
  if (s res).has IORESOURCE_FIXED then
    limits
  else
    let limits := if (s res).matches MEM_MASK PREF_TYPE then
      { limits with pref := lower limits.pref } else limits
    let limits := if (s res).matches MEM_MASK MEM_TYPE then
      { limits with mem := lower limits.mem } else limits
    if (s res).matches IO_MASK IO_TYPE then
      { limits with io := lower limits.io } else limits

/-- Updates a resource of the domain with the new limits. -/
def applyLimit (limits : Constraints) (s : Store) (res : ResourceId) : Store :=
  if (s res).has IORESOURCE_FIXED then
    s
  else
    match limits.of (s res) with
    | none => s
    | some lim => s.modify res fun r => { r with
        base := if lim.base > r.base then lim.base else r.base
        limit := if r.limit > lim.limit then lim.limit else r.limit }

def avoidFixedResources (depth : ℕ) (s : Store) (dev : DeviceId) : Option Store :=
  let limits := (t.resourceList dev).foldl (initialLimit s) ⟨maximumSize, maximumSize, maximumSize⟩
  (constrainResources t s depth dev limits).map fun limits =>
    (t.resourceList dev).foldl (applyLimit limits) s

/-- `align_down (resource->limit - resource->size + 1, resource->align)` -/
def resourceMax (r : Resource) : ℕ :=
  Word.alignDown 64 (Word.add 64 (Word.sub 64 r.limit r.size) 1) (2 ^ r.align)

/-- MEM resources need to start at the highest address manageable. -/
def moveToTop (s : Store) (res : ResourceId) : Store :=
  if !(s res).has IORESOURCE_MEM || (s res).has IORESOURCE_FIXED then
    s
  else
    s.modify res fun r => { r with base := resourceMax r }

/-- The window that a resource of a domain is, nothing inside if the domain has no link. The flags
that are looked at here are never changed. -/
def domainWindow (s : Store) (dev : DeviceId) (res : ResourceId) : Option (Option Window) :=
  let window (typeMask type : BitVec 32) : Option Window :=
    (t.linkList dev).head?.map fun link => ⟨link, res, typeMask, type⟩
  if (s res).has IORESOURCE_FIXED then
    none
  else if (s res).has IORESOURCE_PREFETCH then
    some (window MEM_MASK PREF_TYPE)
  else if (s res).has IORESOURCE_MEM then
    some (window MEM_MASK MEM_TYPE)
  else if (s res).has IORESOURCE_IO then
    some (window IO_MASK IO_TYPE)
  else
    none

def domainWindows (s : Store) (dev : DeviceId) : List (Option Window) :=
  (t.resourceList dev).filterMap (domainWindow t s dev)

/-- The domains on the root bus. -/
def domains (root : BusId) : List DeviceId := (t.children root).filter t.isDomain

/-- The windows of all domains. -/
def allWindows (s : Store) (root : BusId) : List (Option Window) :=
  (domains t root).flatMap (domainWindows t s)

/-- The resources of the domains before `allocate_resources` is called. -/
def prepareDomains (depth : ℕ) (root : BusId) (s : Store) : Option Store :=
  (forWindows (computeResources t depth) (allWindows t s root) s).bind fun s =>
    ((domains t root).foldlM (avoidFixedResources t depth) s).map fun s =>
      (domains t root).foldl (fun s dev => (t.resourceList dev).foldl moveToTop s) s

/-- The result has the resources that did not fit. -/
def devConfigure (depth : ℕ) (root : BusId) (s : Store) : Option (Store × List ResourceId) :=
  (prepareDomains t depth root s).bind fun s =>
    forWindows (allocateResources t depth) (allWindows t s root) (s, [])

end ApuBios.Allocator
