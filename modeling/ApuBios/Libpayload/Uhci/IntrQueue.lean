import ApuBios.Library.Transition
import ApuBios.Library.Word
import ApuBios.Libpayload.Usb.Basic
import ApuBios.Libpayload.Usb.Schedule

/-!
# Interrupt queues of the UHCI driver

Model of the interrupt queues of `drivers/usb/uhci.c` of libpayload. The descriptors of a queue lie in
an array and are linked as a ring, of which one descriptor is left out: that before the one that is
read next. A pointer to a descriptor is given by its index.
-/

namespace ApuBios.Uhci

open Usb

/-! ### Transfer descriptors -/

def tdStatusMask : ℕ := 0xff <<< 16

def tdStatusActive : ℕ := 1 <<< 23

def tdLowspeed : ℕ := 1 <<< 26

def tdCounterShift : ℕ := 27

def tdDevaddrShift : ℕ := 8

def tdEpShift : ℕ := 15

def tdToggleShift : ℕ := 19

def tdMaxlenShift : ℕ := 21

/-- `td_t`. A link that terminates the list is `none`. -/
structure Td where
  ptr : Option ℕ
  ctrlsts : ℕ
  token : ℕ
  bufptr : ℕ
  deriving DecidableEq

namespace Td

/-- A descriptor of zero bytes, which links to the physical address zero. -/
def zero : Td := ⟨some 0, 0, 0, 0⟩

def Active (td : Td) : Prop := td.ctrlsts &&& tdStatusActive ≠ 0

instance (td : Td) : Decidable td.Active := inferInstanceAs (Decidable (_ ≠ _))

/-- The descriptor has been executed without an error. -/
def Ok (td : Td) : Prop := td.ctrlsts &&& tdStatusMask = 0

instance (td : Td) : Decidable td.Ok := inferInstanceAs (Decidable (_ = _))

def toggle (td : Td) : Bool := td.token.testBit tdToggleShift

end Td

/-- `UHCI_SETUP`, `UHCI_IN` and `UHCI_OUT` -/
def pidOf : Direction → ℕ
  | .setup => 0x2d
  | .in_ => 0x69
  | .out => 0xe1

def maxlen (size : ℕ) : ℕ := Word.sub 32 size 1 &&& 0x7ff

/-! ### The queue -/

/-- `intr_q` with its descriptors, the element link of its queue head, and what the chunk of data of each
descriptor holds. -/
structure IntrQ (P : Type*) where
  elementlinkptr : Option ℕ
  tds : ℕ → Td
  lastTd : ℕ
  data : ℕ
  lastread : ℕ
  total : ℕ
  reqsize : ℕ
  chunk : ℕ → P

variable {P : Type*}

namespace IntrQ

def modifyTd (q : IntrQ P) (i : ℕ) (f : Td → Td) : IntrQ P :=
  { q with tds := Function.update q.tds i (f (q.tds i)) }

end IntrQ

/-- The loop of `uhci_create_intr_queue`, with `left` descriptors left. Addresses of devices are below
128. -/
def createLoop (address : Fin 128) (speed reqsize : ℕ) :
    (left : ℕ) → (i data : ℕ) → Endpoint → (ℕ → Td) → (ℕ → Td) × Endpoint
  | 0, _, _, ep, tds => (tds, ep)
  | left + 1, i, data, ep, tds =>
    let td : Td :=
      { ptr := some (i + 1)
        token := pidOf ep.direction ||| ((address : ℕ) <<< tdDevaddrShift |||
          (ep.endpoint &&& 0xf) <<< tdEpShift ||| maxlen reqsize <<< tdMaxlenShift |||
          (ep.toggle &&& 1) <<< tdToggleShift)
        bufptr := virtToPhys data
        ctrlsts := 0 <<< tdCounterShift ||| (if speed ≠ 0 then tdLowspeed else 0) ||| tdStatusActive }
    createLoop address speed reqsize left (i + 1) (data + reqsize)
      { ep with toggle := ep.toggle ^^^ 1 } (Function.update tds i td)

/-- `uhci_create_intr_queue`, whose queue head lies at `qh` and whose data at `data`. The frame list is
returned with the queue. -/
def createIntrQueue (ep : Endpoint) (address : Fin 128) (speed reqsize reqcount reqtiming : ℕ)
    (frames : ℕ → ℕ) (qhPrei qh data : ℕ) (chunk : ℕ → P) : Option ((ℕ → ℕ) × Endpoint × IntrQ P) :=
  let r := createLoop address speed reqsize reqcount 0 data ep fun _ => .zero
  let q : IntrQ P :=
    { elementlinkptr := some 0, tds := r.1, lastTd := reqcount - 1, data := data, lastread := 0,
      total := reqcount, reqsize := reqsize, chunk := chunk }
  let q := q.modifyTd (reqcount - 1) fun td => { td with ptr := none }
  (placeQueue frames (virtToPhys qh ||| 2) (virtToPhys qhPrei ||| 2) reqtiming).map
    fun frames => (frames, r.2, q)

namespace IntrQ

/-- The descriptor before the one that is read next. -/
def previous (q : IntrQ P) : ℕ := if q.lastread = 0 then q.total - 1 else q.lastread - 1

/-- The part of `uhci_poll_intr_queue` that makes `previous` the last descriptor of the list. -/
def requeue (q : IntrQ P) (previous : ℕ) : IntrQ P :=
  let q := q.modifyTd previous fun td =>
    { td with ctrlsts := td.ctrlsts &&& Word.not 32 tdStatusMask, ptr := none }
  let q := if q.lastTd ≠ previous then
      { q.modifyTd q.lastTd fun td => { td with ptr := some previous } with lastTd := previous }
    else q
  q.modifyTd previous fun td => { td with ctrlsts := td.ctrlsts ||| tdStatusActive }

/-- `uhci_poll_intr_queue`: the address of the packet that has come in, and the packet. -/
def poll (q : IntrQ P) : Option (ℕ × P) × IntrQ P :=
  if ¬(q.tds q.lastread).Active then
    let current := q.lastread
    let q := q.requeue q.previous
    let q := { q with lastread := (q.lastread + 1) % q.total }
    (if (q.tds current).Ok then some (q.data + current * q.reqsize, q.chunk current) else none, q)
  else if q.elementlinkptr = none then
    -- reset queue if we fully processed it after underrun
    (none, { q with elementlinkptr := some q.lastread })
  else (none, q)

end IntrQ

/-! ### The controller -/

/-- The queue is polled, or the controller completes the descriptor that it has come to: it writes back
the status, transfers a packet, and goes on to the next descriptor. After an error it may also stay. -/
inductive Event (P : Type*) where
  | poll
  | complete (ctrlsts : ℕ) (packet : P) (stays : Bool)
  deriving DecidableEq

namespace IntrQ

/-- The descriptor at `i` is completed. -/
def complete (q : IntrQ P) (i ctrlsts : ℕ) (packet : P) (stays : Bool) : IntrQ P :=
  let q := q.modifyTd i fun td => { td with ctrlsts := ctrlsts }
  { q with
    chunk := Function.update q.chunk i packet
    elementlinkptr := if (q.tds i).Ok ∨ stays = false then (q.tds i).ptr else some i }

/-- A completion is refused if the controller has not come to an active descriptor, or would not
deactivate it. -/
def step (q : IntrQ P) : Event P → Option (IntrQ P)
  | .poll => some q.poll.2
  | .complete ctrlsts packet stays => q.elementlinkptr.bind fun i =>
    if (q.tds i).Active ∧ ctrlsts &&& tdStatusActive = 0 then some (q.complete i ctrlsts packet stays)
    else none

/-- The packet that an event returns to the caller. -/
def returnedBy (q : IntrQ P) : Event P → List P
  | .poll => (q.poll.1.map Prod.snd).toList
  | .complete .. => []

/-- The packet that an event transfers without an error. -/
def succeededBy (_ : IntrQ P) : Event P → List P
  | .poll => []
  | .complete ctrlsts packet _ => if ctrlsts &&& tdStatusMask = 0 then [packet] else []

/-- The toggle of the descriptor that an event executes. -/
def executedBy (q : IntrQ P) : Event P → List Bool
  | .poll => []
  | .complete .. => (q.elementlinkptr.map fun i => (q.tds i).toggle).toList

end IntrQ

end ApuBios.Uhci
