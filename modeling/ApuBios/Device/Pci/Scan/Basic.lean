import Mathlib.Tactic

/-!
# Scanning a PCI bus

Model of `pci_scan_get_dev`, `pci_probe_dev` and `pci_scan_bus` in `device/pci_device.c`, and of
`alloc_dev` in `device/device.c`. The devices on a bus are linked by `sibling`; the scan takes the
static devices from the list it finds, one by one, and builds a new list.
-/

namespace ApuBios.PciScan

/-- The fields of the bus and of the devices that make up the lists, and the list of the scan. -/
structure State where
  /-- `children` of the bus -/
  children : ℕ
  /-- `old_devices` -/
  oldDevices : ℕ
  sibling : ℕ → ℕ
  /-- whether `path.type` is `DEVICE_PATH_PCI` -/
  isPci : ℕ → Bool
  devfn : ℕ → ℕ
  enabled : ℕ → Bool
  hdrType : ℕ → ℕ

/-- What the scan meets at a number of device and function. -/
structure Hardware where
  /-- the register `PCI_VENDOR_ID` -/
  id : ℕ → ℕ
  /-- the register `PCI_HEADER_TYPE` -/
  hdrType : ℕ → ℕ
  /-- what `chip_ops->enable_dev` makes of `enabled` -/
  enableDev : ℕ → Bool → Bool
  /-- what `ops->enable` makes of `enabled` -/
  enable : ℕ → Bool → Bool
  /-- the memory that `malloc` gives for a new device -/
  malloc : ℕ → ℕ

def PCI_FUNC (devfn : ℕ) : ℕ := devfn &&& 0x07

/-- Some boards return 0 for an empty slot. -/
def noDevice (id : ℕ) : Bool :=
  id == 0xffffffff || id == 0x00000000 || id == 0x0000ffff || id == 0xffff0000

/-! ### Taking a device from the list -/

/-- `*list`, where `list` is the address of `old_devices`, given as 0, or of the `sibling` of a
device. -/
def State.read (s : State) (list : ℕ) : ℕ := if list = 0 then s.oldDevices else s.sibling list

def State.write (s : State) (list dev : ℕ) : State :=
  if list = 0 then { s with oldDevices := dev }
  else { s with sibling := Function.update s.sibling list dev }

def State.unlink (s : State) (list dev : ℕ) : State :=
  let s := s.write list (s.sibling dev)
  { s with sibling := Function.update s.sibling dev 0 }

/-- The search of `pci_scan_get_dev`; no value if it goes on for more rounds. -/
def findDevfn (devfn : ℕ) : (rounds : ℕ) → (list : ℕ) → State → Option (State × ℕ)
  | 0, _, _ => none
  | rounds + 1, list, s =>
    let cur := s.read list
    if cur = 0 then
      some (s, 0)
    else if !s.isPci cur then
      findDevfn devfn rounds cur s
    else if s.devfn cur = devfn then
      some (s.unlink list cur, cur)
    else
      findDevfn devfn rounds cur s

/-- The last child of the bus, 0 if there is none. -/
def lastChild (s : State) : (rounds : ℕ) → (child : ℕ) → Option ℕ
  | 0, _ => none
  | rounds + 1, child =>
    if child ≠ 0 ∧ s.sibling child ≠ 0 then lastChild s rounds (s.sibling child) else some child

/-- The device is linked behind the last child. -/
def State.link (s : State) (child dev : ℕ) : State :=
  if child ≠ 0 then { s with sibling := Function.update s.sibling child dev }
  else { s with children := dev }

def pciScanGetDev (rounds devfn : ℕ) (s : State) : Option (State × ℕ) :=
  (findDevfn devfn rounds 0 s).bind fun (s, dev) =>
    if dev ≠ 0 then
      (lastChild s rounds s.children).map fun child => (s.link child dev, dev)
    else
      some (s, 0)

/-! ### Probing -/

variable (hw : Hardware)

def allocDev (rounds devfn : ℕ) (s : State) : Option (State × ℕ) :=
  (lastChild s rounds s.children).map fun child =>
    let dev := hw.malloc devfn
    let s := { s with
      sibling := Function.update s.sibling dev 0
      isPci := Function.update s.isPci dev true
      devfn := Function.update s.devfn dev devfn
      enabled := Function.update s.enabled dev true
      hdrType := Function.update s.hdrType dev 0 }
    (s.link child dev, dev)

/-- The end of `pci_probe_dev`, for a device that has answered. -/
def configure (devfn dev : ℕ) (s : State) : State :=
  { s with
    hdrType := Function.update s.hdrType dev (hw.hdrType devfn)
    enabled := Function.update s.enabled dev (hw.enable devfn (s.enabled dev)) }

def pciProbeDev (rounds dev devfn : ℕ) (s : State) : Option (State × ℕ) :=
  if dev = 0 then
    if noDevice (hw.id devfn) then
      some (s, 0)
    else
      (allocDev hw rounds devfn s).map fun (s, dev) => (configure hw devfn dev s, dev)
  else
    let s := { s with
      enabled := Function.update s.enabled dev (hw.enableDev devfn (s.enabled dev)) }
    if noDevice (hw.id devfn) then
      some ({ s with enabled := Function.update s.enabled dev false }, dev)
    else
      some (configure hw devfn dev s, dev)

/-! ### Scanning -/

/-- The loop of `pci_scan_bus`, with the numbers that are scanned. -/
def scanLoop (rounds maxDevfn : ℕ) : (n : ℕ) → (devfn : ℕ) → State → Option (State × List ℕ)
  | 0, _, _ => none
  | n + 1, devfn, s =>
    if devfn ≤ maxDevfn then
      (pciScanGetDev rounds devfn s).bind fun (s, dev) =>
        (pciProbeDev hw rounds dev devfn s).bind fun (s, dev) =>
          let devfn' := if PCI_FUNC devfn = 0x00 ∧
              (dev = 0 ∨ (s.enabled dev = true ∧ s.hdrType dev &&& 0x80 ≠ 0x80)) then
            devfn + 0x07 else devfn
          (scanLoop rounds maxDevfn n (devfn' + 1) s).map fun (s, scanned) => (s, devfn :: scanned)
    else
      some (s, [])

/-- The loop over the children of the bus, where `scanBus` does not change the bus. -/
def forChildren (scanBus : ℕ → ℕ → ℕ) (s : State) :
    (rounds : ℕ) → (child max : ℕ) → Option ℕ
  | 0, _, _ => none
  | rounds + 1, child, max =>
    if child = 0 then some max
    else forChildren scanBus s rounds (s.sibling child) (scanBus child max)

/-- `pci_scan_bus`; the list that is left over is that of `oldDevices` then. -/
def pciScanBus (scanBus : ℕ → ℕ → ℕ) (rounds minDevfn maxDevfn max : ℕ) (s : State) :
    Option (State × List ℕ × ℕ) :=
  let maxDevfn := if maxDevfn > 0xff then 0xff else maxDevfn
  (scanLoop hw rounds maxDevfn 0x101 minDevfn
      { s with oldDevices := s.children, children := 0 }).bind fun (s, scanned) =>
    (forChildren scanBus s rounds s.children max).map fun max => (s, scanned, max)

end ApuBios.PciScan
