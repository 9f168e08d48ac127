import ApuBios.Library.Faulting
import ApuBios.Library.Transition

/-!
# USB mass storage devices

Model of `drivers/usb/usbmsc.c` of libpayload, with `usb_detach_device` of `usb.c`. What a device
answers is a list, from which each command and each transfer of a reset takes the next answer. An
access to what has been freed, or through a pointer that is null, ends the program with a fault.
-/

namespace ApuBios.UsbMsc

open Faulting

/-! ### Devices -/

inductive Direction where
  | setup
  | in_
  | out
  deriving DecidableEq, Repr

inductive EndpointType where
  | control
  | isochronous
  | bulk
  | interrupt
  deriving DecidableEq, Repr

structure Endpoint where
  endpoint : ℕ
  direction : Direction
  type : EndpointType
  deriving DecidableEq, Repr

/-- `USB_MSC_DETACHED`, `USB_MSC_NOT_READY` and `USB_MSC_READY` -/
inductive Readiness where
  | detached
  | notReady
  | ready
  deriving DecidableEq, Repr

/-- `usbmsc_inst_t` -/
structure UsbmscInst where
  blocksize : ℕ
  numblocks : ℕ
  protocol : ℕ
  bulkIn : Option Endpoint
  bulkOut : Option Endpoint
  usbdiskCreated : Bool
  ready : Readiness
  deriving DecidableEq, Repr

/-- `usbdev_t`, as far as the driver looks at it. -/
structure Usbdev where
  bInterfaceProtocol : ℕ
  bInterfaceSubClass : ℕ
  /-- The endpoints from the second one. -/
  endpoints : List Endpoint
  data : Option UsbmscInst
  deriving DecidableEq, Repr

/-- The functions that a payload provides. -/
inductive Callback where
  | usbdiskCreate
  | usbdiskRemove
  deriving DecidableEq, Repr

/-- The answer to a command. -/
structure CommandAnswer where
  cbwFails : Bool
  cswFails : Bool
  cswFailsAgain : Bool
  tagMatches : Bool
  bCSWStatus : ℕ
  dCSWDataResidue : ℕ
  /-- What is in the buffer afterwards. -/
  buf : ℕ → UInt8

inductive Answer where
  | command (a : CommandAnswer)
  /-- The request in `reset_transport`. -/
  | control (fails : Bool)
  /-- A `clear_stall` in `reset_transport`. -/
  | clearStall (fails : Bool)

structure World where
  /-- `controller->devices[address]` -/
  device : Option Usbdev
  answers : List Answer
  /-- The callbacks that have been called, the last one at the end. -/
  trace : List Callback

inductive Fault where
  | nullPointer
  | useAfterFree
  deriving DecidableEq, Repr

abbrev M := Prog World Fault

/-- `MSC_INST (dev)`, and an access to it. -/
def mscInst : M UsbmscInst := fun w =>
  match w.device with
  | none => .fault .useAfterFree w
  | some dev =>
    match dev.data with
    | none => .fault .nullPointer w
    | some inst => .done inst w

/-- A write to the instance data. -/
def modifyInst (f : UsbmscInst → UsbmscInst) : M Unit := fun w =>
  match w.device with
  | none => .fault .useAfterFree w
  | some dev =>
    match dev.data with
    | none => .fault .nullPointer w
    | some inst => .done () { w with device := some { dev with data := some (f inst) } }

def setDevice (device : Option Usbdev) : M Unit := fun w => .done () { w with device }

def call (c : Callback) : M Unit := fun w => .done () { w with trace := w.trace ++ [c] }

/-! ### Disks -/

def usbMscMarkReady : M Unit := modifyInst fun inst => { inst with ready := .ready }

def usbMscMarkNotReady : M Unit := modifyInst fun inst => { inst with ready := .notReady }

def usbMscMarkDetached : M Unit := modifyInst fun inst => { inst with ready := .detached }

def usbMscIsDetached : M Bool := do
  let inst ← mscInst
  return inst.ready = .detached

def usbMscIsReady : M Bool := do
  let inst ← mscInst
  return inst.ready = .ready

def usbMscCreateDisk : M Unit := do
  call .usbdiskCreate
  modifyInst fun inst => { inst with usbdiskCreated := true }

def usbMscRemoveDisk : M Unit := do
  let inst ← mscInst
  if inst.usbdiskCreated then call .usbdiskRemove

def usbMscDestroy : M Unit := fun w =>
  match w.device with
  | none => .fault .useAfterFree w
  | some dev =>
    match dev.data with
    | none => .done () w
    | some _ => (do usbMscRemoveDisk; setDevice (some { dev with data := none }) : M Unit) w

/-- `usb_detach_device` for the device; it is freed. -/
def usbDetachDevice : M Unit := fun w =>
  match w.device with
  | none => .done () w
  | some _ => (do usbMscDestroy; setDevice none : M Unit) w

/-! ### Commands -/

inductive MscCommandResult where
  | ok
  | fail
  | detached
  deriving DecidableEq, Repr

def nextCommand : M CommandAnswer := fun w =>
  match w.answers with
  | .command a :: answers => .done a { w with answers }
  | _ => .blocked

/-- The request that resets the transport. -/
def control : M Bool := fun w =>
  match w.answers with
  | .control fails :: answers => .done fails { w with answers }
  | _ => .blocked

/-- A transfer over an endpoint. -/
def onEndpoint (ep : Option Endpoint) (fails : Bool) : M Bool := fun w =>
  match ep with
  | none => .fault .nullPointer w
  | some _ => .done fails w

def clearStall (ep : Option Endpoint) : M Bool := fun w =>
  match ep with
  | none => .fault .nullPointer w
  | some _ =>
    match w.answers with
    | .clearStall fails :: answers => .done fails { w with answers }
    | _ => .blocked

def detach : M MscCommandResult := do
  usbDetachDevice
  return .detached

def resetTransport : M MscCommandResult := do
  if ← control then detach
  else if ← clearStall (← mscInst).bulkIn then detach
  else if ← clearStall (← mscInst).bulkOut then detach
  else return .fail

def getCsw (ep : Option Endpoint) (a : CommandAnswer) : M MscCommandResult := do
  -- what the `clear_stall` between the two transfers returns is not looked at
  if ← onEndpoint ep (a.cswFails && a.cswFailsAgain) then resetTransport
  else if a.tagMatches then return .ok
  else resetTransport

structure Command where
  /-- `cb[0]` -/
  command : ℕ
  /-- `cb[4]` -/
  lun : ℕ
  dir : Direction
  buflen : ℕ
  residueOk : Bool
  deriving DecidableEq, Repr

/-- The data phase of `execute_command`; a stall is cleared, and the command goes on. -/
def transferData (cb : Command) : M Unit := do
  if 0 < cb.buflen then
    let inst ← mscInst
    let _ ← onEndpoint (if cb.dir = .in_ then inst.bulkIn else inst.bulkOut) false
    return ()
  else return ()

/-- The end of `execute_command`; `failed` is what is done when the command has failed. -/
def checkStatus (failed : M MscCommandResult) (cb : Command) (a : CommandAnswer) :
    M MscCommandResult :=
  if cb.command = 0x1b ∧ cb.lun = 1 then return .ok
  else if a.bCSWStatus = 2 then resetTransport
  else if a.bCSWStatus = 0 then
    return if a.dCSWDataResidue = 0 ∨ cb.residueOk = true then .ok else .fail
  else failed

/-- `execute_command` for an answer -/
def transfer (failed : M MscCommandResult) (cb : Command) (a : CommandAnswer) :
    M MscCommandResult := do
  if ← onEndpoint (← mscInst).bulkOut a.cbwFails then resetTransport
  else
    transferData cb
    match ← getCsw (← mscInst).bulkIn a with
    | .ok => checkStatus failed cb a
    | ret => return ret

/-- The result of `execute_command`, and what is in the buffer afterwards. -/
def executeCommandWith (failed : M MscCommandResult) (cb : Command) :
    M (MscCommandResult × (ℕ → UInt8)) := do
  let a ← nextCommand
  let ret ← transfer failed cb a
  return (ret, a.buf)

/-- That the request of sense data fails is not looked into. -/
def requestSense : M (MscCommandResult × (ℕ → UInt8)) :=
  executeCommandWith (pure .fail) ⟨0x03, 0, .in_, 19, true⟩

def requestSenseNoMedia : M MscCommandResult := do
  let (ret, buf) ← requestSense
  if ret ≠ .ok then return ret
  else if buf 2 &&& 0xf ≠ 2 then return .fail
  else if buf 12 ≠ 0x3a then return .fail
  else
    usbMscMarkNotReady
    return .ok

def executeCommand (cb : Command) : M (MscCommandResult × (ℕ → UInt8)) :=
  let failed : M MscCommandResult :=
    if cb.command = 0x03 then pure .fail
    else if cb.command = 0 then requestSenseNoMedia
    else do
      let (ret, _) ← requestSense
      return if ret = .ok then .fail else ret
  executeCommandWith failed cb

def testUnitReady : M MscCommandResult := do
  let (ret, _) ← executeCommand ⟨0, 0, .out, 0, false⟩
  return ret

def spinUp : M MscCommandResult := do
  let (ret, _) ← executeCommand ⟨0x1b, 1, .out, 0, false⟩
  return ret

/-- A big-endian word of a buffer. -/
def ntohl (buf : ℕ → UInt8) (i : ℕ) : ℕ :=
  ((buf i).toNat * 2 ^ 24 + (buf (i + 1)).toNat * 2 ^ 16) +
    ((buf (i + 2)).toNat * 2 ^ 8 + (buf (i + 3)).toNat)

/-- The loop of `read_capacity`, for at most so many more rounds: `count`, what is in the buffer, or
`none` when the device has been detached. -/
def readCapacityLoop (count : ℕ) : ℕ → M (Option (ℕ × (ℕ → UInt8)))
  | 0 => return some (count + 1, fun _ => 0)
  | rounds + 1 => do
    let (ret, buf) ← executeCommand ⟨0x25, 0, .in_, 8, false⟩
    match ret with
    | .ok => return some (count + 1, buf)
    | .fail => readCapacityLoop (count + 1) rounds
    | .detached => return none

/-- The capacity, or 2 TB if the device has not answered in time. -/
def setCapacity (count : ℕ) (buf : ℕ → UInt8) (inst : UsbmscInst) : UsbmscInst :=
  if 20 ≤ count then { inst with numblocks := 0xffffffff, blocksize := 512 }
  else { inst with numblocks := (ntohl buf 0 + 1) % 2 ^ 32, blocksize := ntohl buf 4 }

def readCapacity : M MscCommandResult := do
  match ← readCapacityLoop 0 20 with
  | none => return .detached
  | some (count, buf) =>
    modifyInst (setCapacity count buf)
    return .ok

/-! ### Readiness -/

/-- How a loop over a command ends. -/
inductive LoopEnd where
  | broken
  | timeout
  | returned
  deriving DecidableEq, Repr

/-- The loops of `usb_msc_test_unit_ready`. -/
def retryLoop (command : M MscCommandResult) : ℕ → M LoopEnd
  | 0 => return .timeout
  | rounds + 1 => do
    match ← command with
    | .ok => return .broken
    | .fail => retryLoop command rounds
    | .detached =>
      usbMscMarkDetached
      return .returned

/-- The part of `usb_msc_test_unit_ready` behind the first loop. -/
def usbMscSpinUp : M Unit := do
  if ← usbMscIsReady then
    match ← retryLoop spinUp 30 with
    | .returned => return ()
    | _ => if (← readCapacity) ≠ .ok then usbMscMarkNotReady

def usbMscTestUnitReady : M Unit := do
  usbMscMarkReady
  match ← retryLoop testUnitReady 300 with
  | .returned => return ()
  | .timeout =>
    usbMscMarkNotReady
    usbMscSpinUp
  | .broken => usbMscSpinUp

/-! ### What the USB stack calls -/

/-- The endpoint that the loop over the endpoints finds. -/
def findBulk (dev : Usbdev) (direction : Direction) : Option Endpoint :=
  dev.endpoints.find? fun ep => ep.endpoint ≠ 0 ∧ ep.type = .bulk ∧ ep.direction = direction

/-- The instance data when the endpoints have been looked for. -/
def newInst (dev : Usbdev) : UsbmscInst where
  blocksize := 0
  numblocks := 0
  protocol := dev.bInterfaceSubClass
  bulkIn := findBulk dev .in_
  bulkOut := findBulk dev .out
  usbdiskCreated := false
  ready := .ready

/-- `usb_msc_init` for a device; the request in `get_max_luns` changes nothing. -/
def usbMscInit (dev : Usbdev) : M Unit := do
  if dev.bInterfaceProtocol ≠ 0x50 then return ()
  else if dev.bInterfaceSubClass ≠ 2 ∧ dev.bInterfaceSubClass ≠ 5 ∧ dev.bInterfaceSubClass ≠ 6 then
    return ()
  else
    setDevice (some { dev with data := some (newInst dev) })
    if findBulk dev .in_ = none then return ()
    else if findBulk dev .out = none then return ()
    else
      usbMscTestUnitReady
      if ← usbMscIsReady then usbMscCreateDisk

def usbMscPoll : M Unit := do
  if ← usbMscIsDetached then return ()
  else
    let prevReady ← usbMscIsReady
    usbMscTestUnitReady
    let ready ← usbMscIsReady
    if !prevReady && ready then usbMscCreateDisk
    else if prevReady && !ready then usbMscRemoveDisk

/-! ### Runs -/

structure State where
  device : Option Usbdev
  trace : List Callback
  fault : Option Fault

inductive Event where
  /-- `usb_attach_device` calls `usb_msc_init`. -/
  | init (dev : Usbdev) (answers : List Answer)
  /-- `usb_poll` calls `usb_msc_poll`. -/
  | poll (answers : List Answer)
  /-- `usb_detach_device` calls `usb_msc_destroy`. -/
  | destroy

/-- The state after a call in which the device gave all of the answers. -/
def Outcome.toState : Outcome World Fault Unit → Option State
  | .done _ w => if w.answers.isEmpty then some ⟨w.device, w.trace, none⟩ else none
  | .fault f w => if w.answers.isEmpty then some ⟨w.device, w.trace, some f⟩ else none
  | .blocked => none

/-- A device is initialized once, and polled as long as it is there. -/
def step (s : State) (e : Event) : Option State :=
  if s.fault.isSome then none
  else
    match e with
    | .init dev answers =>
      if s.device.isSome then none
      else Outcome.toState (usbMscInit dev ⟨some { dev with data := none }, answers, s.trace⟩)
    | .poll answers =>
      if s.device.isNone then none
      else Outcome.toState (usbMscPoll ⟨s.device, answers, s.trace⟩)
    | .destroy => Outcome.toState (usbDetachDevice ⟨s.device, [], s.trace⟩)

def initial : State := ⟨none, [], none⟩

end ApuBios.UsbMsc
