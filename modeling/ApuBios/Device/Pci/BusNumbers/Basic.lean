import ApuBios.Library.Forest

/-!
# Bus numbers

Model of `scan_bus` and `reset_bus` in `device/device.c` and of `do_pci_scan_bridge` and the second
half of `pci_scan_bus` in `device/pci_device.c`. What the first half finds on each bus is given
(`ApuBios.Device.Pci.Scan`): each bus has its children, linked by `sibling`, and the children that
are bridges have a bus behind them.
-/

namespace ApuBios.PciBus

/-- A device with a `scan_bus`. -/
structure Bridge where
  dev : ℕ
  /-- the first of its `link_list`, after `do_pci_scan_bridge` has allocated one if it was empty -/
  bus : ℕ
  /-- the other links -/
  links : List ℕ
  /-- whether it has a `reset_bus` -/
  hasResetBus : Bool
deriving DecidableEq

/-- The children of a bus, from a child on. -/
inductive Children where
  | nil
  /-- disabled, or without a `scan_bus` -/
  | device (sibling : Children)
  | bridge (b : Bridge) (children sibling : Children)

/-- Buses and devices are given by their addresses. -/
structure State where
  secondary : ℕ → ℕ
  subordinate : ℕ → ℕ
  resetNeeded : ℕ → Bool
  /-- the register `PCI_COMMAND` of a device -/
  command : ℕ → ℕ
  /-- the register `PCI_PRIMARY_BUS` of a device -/
  primaryBus : ℕ → ℕ
  /-- the buses for which the devices that are found will need a reset, for each search of a bus -/
  requests : List (ℕ → Bool)

def State.setSecondary (s : State) (bus value : ℕ) : State :=
  { s with secondary := Function.update s.secondary bus (value % 0x10000) }

def State.setSubordinate (s : State) (bus value : ℕ) : State :=
  { s with subordinate := Function.update s.subordinate bus (value % 0x10000) }

def State.setResetNeeded (s : State) (bus : ℕ) (value : Bool) : State :=
  { s with resetNeeded := Function.update s.resetNeeded bus value }

def State.setCommand (s : State) (dev value : ℕ) : State :=
  { s with command := Function.update s.command dev value }

def State.setPrimaryBus (s : State) (dev value : ℕ) : State :=
  { s with primaryBus := Function.update s.primaryBus dev value }

/-- The devices on a bus are looked for. -/
def State.probe (s : State) : State :=
  match s.requests with
  | [] => s
  | request :: requests =>
    { s with resetNeeded := fun bus => s.resetNeeded bus || request bus, requests := requests }

/-! ### Scanning a bus -/

/-- `reset_bus`, and whether it has reset the bus. -/
def resetBus (b : Bridge) (link : ℕ) (s : State) : State × Bool :=
  if b.hasResetBus then (s.setResetNeeded link false, true) else (s, false)

/-- The loop of `scan_bus` over the links of a device on the bus `parent`, with `do_scan_bus`. -/
def resetLinks (b : Bridge) (parent : ℕ) : List ℕ → State × Bool → State × Bool
  | [], r => r
  | link :: links, (s, doScanBus) =>
    resetLinks b parent links (
      if s.resetNeeded link then
        match resetBus b link s with
        | (s, true) => (s, true)
        | (s, false) => (s.setResetNeeded parent true, doScanBus)
      else
        (s, doScanBus))

/-- `scan_bus` of a device whose own `scan_bus` is given; no value if it goes on for more rounds. -/
def scanBus (b : Bridge) (parent : ℕ) (ops : State → ℕ → Option (State × ℕ)) :
    (rounds : ℕ) → State → (max : ℕ) → Option (State × ℕ)
  | 0, _, _ => none
  | rounds + 1, s, max =>
    (ops s max).bind fun (s, newMax) =>
      let (s, doScanBus) := resetLinks b parent (b.bus :: b.links) (s, false)
      if doScanBus then scanBus b parent ops rounds s max else some (s, newMax)

def doPciScanBridge (b : Bridge) (parent : ℕ) (doScanBus : State → ℕ → Option (State × ℕ))
    (s : State) (max : ℕ) : Option (State × ℕ) :=
  let max := max + 1
  let s := (s.setSecondary b.bus max).setSubordinate b.bus 0xff
  let cr := s.command b.dev
  let s := s.setCommand b.dev 0x0000
  let buses := s.primaryBus b.dev &&& 0xff000000
  let buses := buses ||| (s.secondary parent <<< 0 ||| s.secondary b.bus <<< 8 |||
    s.subordinate b.bus <<< 16)
  let s := s.setPrimaryBus b.dev buses
  (doScanBus s max).map fun (s, max) =>
    let s := s.setSubordinate b.bus max
    let buses := (buses &&& 0xff00ffff) ||| s.subordinate b.bus <<< 16
    ((s.setPrimaryBus b.dev buses).setCommand b.dev cr, max)

/-- The loop of `pci_scan_bus` over the children of a bus. -/
def scanChildren (rounds bus : ℕ) : Children → State → (max : ℕ) → Option (State × ℕ)
  | .nil, s, max => some (s, max)
  | .device sibling, s, max => scanChildren rounds bus sibling s max
  | .bridge b children sibling, s, max =>
    (scanBus b bus
        (doPciScanBridge b bus fun s max => scanChildren rounds b.bus children s.probe max)
        rounds s max).bind fun (s, max) =>
      scanChildren rounds bus sibling s max

def pciScanBus (rounds bus : ℕ) (children : Children) (s : State) (max : ℕ) :
    Option (State × ℕ) :=
  scanChildren rounds bus children s.probe max

end ApuBios.PciBus
