import ApuBios.Device.Allocator.Basic

/-!
# Base address registers

Model of `pci_moving_config32`, `pci_get_resource` and `pci_read_bases` in `device/pci_device.c`, and of
`new_resource` and `compact_resources` over the list of the resources of one device. The size of a
window is found by writing ones and zeros to its register and looking at which bits move.
-/

namespace ApuBios.PciBases

open Allocator

def PCI_BASE_ADDRESS_0 : ℕ := 0x10
def PCI_BASE_ADDRESS_SPACE_IO : BitVec 32 := 0x01
def PCI_BASE_ADDRESS_MEM_LIMIT_MASK : BitVec 32 := 0x06
def PCI_BASE_ADDRESS_MEM_LIMIT_32 : BitVec 32 := 0x00
def PCI_BASE_ADDRESS_MEM_LIMIT_1M : BitVec 32 := 0x02
def PCI_BASE_ADDRESS_MEM_LIMIT_64 : BitVec 32 := 0x04
def PCI_BASE_ADDRESS_MEM_PREFETCH : BitVec 32 := 0x08
def PCI_BASE_ADDRESS_MEM_ATTR_MASK : BitVec 32 := 0x0f
def PCI_BASE_ADDRESS_IO_ATTR_MASK : BitVec 32 := 0x03
def IORESOURCE_PCI64 : BitVec 32 := 0x01

/-! ### The configuration space -/

/-- The registers of a device. A bit that is writable holds what is written, and another one is
constant. -/
structure Config where
  value : ℕ → BitVec 32
  writable : ℕ → BitVec 32

def Config.read (c : Config) (reg : ℕ) : BitVec 32 := c.value reg

def Config.write (c : Config) (reg : ℕ) (v : BitVec 32) : Config :=
  let held := (v &&& c.writable reg) ||| (c.value reg &&& ~~~c.writable reg)
  { c with value := Function.update c.value reg held }

def pciMovingConfig32 (c : Config) (reg : ℕ) : BitVec 32 × Config :=
  let value := c.read reg
  let c := c.write reg 0xffffffff
  let ones := c.read reg
  let c := c.write reg 0x00000000
  let zeroes := c.read reg
  let c := c.write reg value
  (ones ^^^ zeroes, c)

/-! ### The resources of a device -/

/-- What `memset` leaves. -/
def zeroResource : Resource := ⟨0, 0, 0, 0, 0, 0, 0⟩

def compactResources (l : List Resource) : List Resource := l.filter fun r => r.flags != 0

/-- The values that `new_resource` initializes a resource to. -/
def initValues (index : ℕ) (r : Resource) : Resource :=
  let r := if r.has IORESOURCE_FIXED then r else { r with flags := 0, base := 0 }
  { r with size := 0, limit := 0, index, align := 0, gran := 0 }

/-- The list, and the place of the resource in it. -/
def newResource (l : List Resource) (index : ℕ) : List Resource × ℕ :=
  let l := compactResources l
  match l.findIdx? fun r => r.index == index with
  | some i => (l.modify i (initValues index), i)
  | none => (l ++ [initValues index zeroResource], l.length)

/-! ### The size -/

/-- `while (!(moving & size)) { size <<= 1; align += 1; gran += 1; }` -/
def sizeLoop (moving : BitVec 64) : (fuel : ℕ) → (size : BitVec 64) → (align : ℕ) →
    Option (BitVec 64 × ℕ)
  | 0, _, _ => none
  | fuel + 1, size, align =>
    if moving &&& size = 0 then sizeLoop moving fuel (size <<< 1) (align + 1) else some (size, align)

/-- The size and the limit that follow from the bits that move, and `limit`. -/
def sizeResource (moving : BitVec 64) (resource : Resource) : Option (Resource × ℕ) :=
  if moving = 0 then
    some (resource, 0)
  else
    (sizeLoop moving 64 1 0).map fun (size, align) =>
      let limit := (moving ||| (size - 1)).toNat
      ({ resource with size := size.toNat, align, gran := align, limit }, limit)

/-- The flags and the limit that follow from the attributes. -/
def typeResource (moving : BitVec 64) (attr : BitVec 32) (resource : Resource) : Resource :=
  if moving = 0 then
    { resource with flags := 0 }
  else if attr &&& PCI_BASE_ADDRESS_SPACE_IO ≠ 0 then
    { resource with flags := resource.flags ||| IORESOURCE_IO, limit := 0xffff }
  else
    let attr := attr &&& PCI_BASE_ADDRESS_MEM_ATTR_MASK
    let resource := { resource with flags := resource.flags ||| IORESOURCE_MEM }
    let resource := if attr &&& PCI_BASE_ADDRESS_MEM_PREFETCH ≠ 0 then
      { resource with flags := resource.flags ||| IORESOURCE_PREFETCH } else resource
    let attr := attr &&& PCI_BASE_ADDRESS_MEM_LIMIT_MASK
    if attr = PCI_BASE_ADDRESS_MEM_LIMIT_32 then
      { resource with limit := 0xffffffff }
    else if attr = PCI_BASE_ADDRESS_MEM_LIMIT_1M then
      { resource with limit := 0x000fffff }
    else if attr = PCI_BASE_ADDRESS_MEM_LIMIT_64 then
      { resource with limit := 0xffffffffffffffff, flags := resource.flags ||| IORESOURCE_PCI64 }
    else
      -- a broken register
      { resource with flags := 0 }

/-- The attributes say that the register has a high half. -/
def is64 (attr : BitVec 32) : Bool :=
  attr &&& PCI_BASE_ADDRESS_SPACE_IO = 0 ∧
    attr &&& PCI_BASE_ADDRESS_MEM_LIMIT_MASK = PCI_BASE_ADDRESS_MEM_LIMIT_64

/-- The registers, the list, and the resource. -/
def pciGetResource (c : Config) (l : List Resource) (index : ℕ) :
    Option (Config × List Resource × Resource) :=
  let (l, i) := newResource l index
  let resource := (l[i]?).getD zeroResource
  let value := c.read index
  let (low, c) := pciMovingConfig32 c index
  let attr := value &&& ~~~low
  let (moving, c) : BitVec 64 × Config :=
    if is64 attr then
      let (high, c) := pciMovingConfig32 c (index + 4)
      (low.setWidth 64 ||| high.setWidth 64 <<< 32, c)
    else
      (low.setWidth 64, c)
  (sizeResource moving resource).map fun (resource, limit) =>
    let resource := typeResource moving attr resource
    let resource := if resource.limit > limit then { resource with limit } else resource
    (c, l.set i resource, resource)

/-- The loop ends at `stop`. No value means that it has run out of fuel. -/
def readBasesLoop (stop : ℕ) : (fuel : ℕ) → (index : ℕ) → Config → List Resource →
    Option (Config × List Resource)
  | 0, index, c, l => if index < stop then none else some (c, l)
  | fuel + 1, index, c, l =>
    if index < stop then
      (pciGetResource c l index).bind fun (c, l, resource) =>
        readBasesLoop stop fuel (index + if resource.has IORESOURCE_PCI64 then 8 else 4) c l
    else
      some (c, l)

def pciReadBases (c : Config) (l : List Resource) (howmany : ℕ) : Option (Config × List Resource) :=
  (readBasesLoop (PCI_BASE_ADDRESS_0 + howmany * 4) howmany PCI_BASE_ADDRESS_0 c l).map
    fun (c, l) => (c, compactResources l)

end ApuBios.PciBases
