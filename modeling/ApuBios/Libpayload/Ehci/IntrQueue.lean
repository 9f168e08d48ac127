import ApuBios.Library.LinkedList
import ApuBios.Library.Transition
import ApuBios.Library.Alternation
import ApuBios.Libpayload.Ehci.Bulk

/-!
# Interrupt queues of the EHCI driver

A queue holds a fixed number of descriptors that are linked for execution, and a spare one. When the
head of the queue has been executed, the spare one is filled in and linked behind the tail, and the
head becomes the spare one.
-/

namespace ApuBios.Ehci

open Usb LinkedList

/-! ### The queue -/

/-- `intr_qtd_t` -/
structure IntrQtd where
  td : Qtd
  data : ℕ
  next : ℕ
  deriving DecidableEq

/-- `ehci_qh_t` -/
structure Qh where
  horizLinkPtr : ℕ
  epchar : ℕ
  epcaps : ℕ
  currentTdPtr : ℕ
  td : Qtd
  deriving DecidableEq

/-- `intr_queue_t`, with the endpoint that it is for, the speed of its device and the memory that the
descriptors lie in. -/
structure IntrQueue where
  qh : Qh
  head : ℕ
  tail : ℕ
  spare : ℕ
  data : ℕ
  endp : Endpoint
  speed : ℕ
  reqsize : ℕ
  mem : ℕ → IntrQtd

namespace IntrQueue

/-- A descriptor is linked to the next one, for the controller and for the driver. -/
def link (q : IntrQueue) (cur next : ℕ) : IntrQueue :=
  { q with
    mem := Function.update q.mem cur
      { q.mem cur with
        td := { (q.mem cur).td with nextQtd := virtToPhys next }
        next := next } }

/-- `fill_intr_queue_td` -/
def fill (q : IntrQueue) (intrQtd data : ℕ) : IntrQueue :=
  let pid := pidOf q.endp.direction
  let cerr := if q.speed < 2 then 1 else 0
  let td := { Qtd.zero with
    nextQtd := qtdTerminate
    altNextQtd := qtdTerminate
    token := qtdActive ||| pid <<< qtdPidShift ||| cerr <<< qtdCerrShift |||
      (q.endp.toggle &&& 1) <<< qtdToggleShift }
  { q with
    mem := Function.update q.mem intrQtd
      { td := (fillTd td data q.reqsize).1, data := data, next := 0 }
    endp := { q.endp with toggle := q.endp.toggle ^^^ 1 } }

/-- Whether the descriptor has not been executed yet. -/
def Active (q : IntrQueue) (intrQtd : ℕ) : Prop := (q.mem intrQtd).td.token &&& qtdActive ≠ 0

instance (q : IntrQueue) (intrQtd : ℕ) : Decidable (q.Active intrQtd) := inferInstanceAs (Decidable (_ ≠ _))

end IntrQueue

/-! ### Creating a queue -/

/-- The blocks that the allocator returns for a queue of `n` descriptors and a spare one: the one for the
queue, the one for the data, and those for the descriptors in the order of the calls. -/
structure Blocks (n : ℕ) where
  intrq : ℕ
  data : ℕ
  td : ℕ → ℕ
  td_inj : Set.InjOn td (Set.Iic n)
  td_pos : ∀ k ≤ n, 0 < td k
  td_lt : ∀ k ≤ n, td k < 2 ^ 32
  td_aligned : ∀ k ≤ n, 64 ∣ td k

/-- The loop that creates the descriptors, from the `i`th one on. -/
def createLoop (td : ℕ → ℕ) (reqcount : ℕ) :
    (left : ℕ) → (q : IntrQueue) → (i cur data : ℕ) → IntrQueue × ℕ × ℕ
  | 0, q, _, cur, data => (q, cur, data)
  | left + 1, q, i, cur, data =>
    let q := q.fill cur data
    let data := data + q.reqsize
    if i + 1 < reqcount then
      -- create one more qTD
      let next := td (i + 1)
      createLoop td reqcount left (q.link cur next) (i + 1) next data
    else createLoop td reqcount left q (i + 1) cur data

/-- How many descriptors are needed at least: one for processing, one for the controller to advance to. -/
def adjustCount (reqcount : ℤ) : ℕ := if reqcount < 2 then 2 else reqcount.toNat

/-- The descriptors of `ehci_create_intr_queue`: the queue and the spare one. -/
def createTds {n : ℕ} (b : Blocks n) (q : IntrQueue) : IntrQueue :=
  let q := { q with head := b.td 0 }
  let r := createLoop b.td n n q 0 q.head b.data
  let q := { r.1 with tail := r.2.1, spare := b.td n }
  q.fill q.spare r.2.2

/-- `ehci_create_intr_queue` for a device at `address`. The closest hub for USB 2.0, if there is one, is
needed for split transactions. The frame list is returned with the queue. -/
def createIntrQueue (ep : Endpoint) (address speed : ℕ) (hub : Option (ℕ × ℕ)) (reqsize : ℕ)
    (reqcount : ℤ) (reqtiming : ℕ) (frames : ℕ → ℕ) (dummyQh : ℕ) (mem : ℕ → IntrQtd)
    (b : Blocks (adjustCount reqcount)) : Option ((ℕ → ℕ) × IntrQueue) :=
  if reqsize > 4 * 4096 + 1 ∨ reqtiming > 1024 then none
  else if speed < 2 ∧ hub = none then none
  else
    let hubPort := if speed < 2 then hub.getD (0, 0) else (0, 0)
    let q := createTds b
      { qh := ⟨0, 0, 0, 0, .zero⟩, head := 0, tail := 0, spare := 0, data := b.data, endp := ep,
        speed := speed, reqsize := reqsize, mem := mem }
    let endp := ep.endpoint &&& 0xf
    let qh : Qh :=
      { horizLinkPtr := 1
        epchar := address ||| endp <<< 8 ||| speed <<< 12 ||| 1 <<< 14 ||| 0 <<< 15 |||
          ep.maxpacketsize <<< 16 ||| 0 <<< 28
        epcaps := 1 <<< 30 ||| hubPort.2 <<< 23 ||| hubPort.1 <<< 16 ||| 0xfe <<< 8 ||| 1
        currentTdPtr := 0
        td := { Qtd.zero with nextQtd := virtToPhys q.head } }
    (placeQueue frames (virtToPhys b.intrq ||| 1 <<< 1) (virtToPhys dummyQh ||| 1 <<< 1) reqtiming).map
      fun frames => (frames, { q with qh := qh })

/-! ### Polling it -/

/-- `ehci_poll_intr_queue`: the data of the head, if it has been transferred. -/
def IntrQueue.poll (q : IntrQueue) : Option ℕ × IntrQueue :=
  if ¬q.Active q.head then
    let ret := if (q.mem q.head).td.token &&& qtdStatusMask = 0 then some (q.mem q.head).data else none
    -- insert spare qTD at the end and advance our tail ptr
    let q := q.fill q.spare (q.mem q.spare).data
    let q := q.link q.tail q.spare
    let q := { q with tail := (q.mem q.tail).next }
    -- reuse executed qTD as spare one and advance our head ptr
    (ret, { q with spare := q.head, head := (q.mem q.head).next })
  else if q.qh.td.nextQtd &&& qtdTerminate ≠ 0 ∧ q.qh.currentTdPtr ≠ virtToPhys q.head ∧
      q.qh.td.token &&& qtdActive = 0 then
    -- reset queue if we fully processed it after underrun
    (none, { q with
      qh := { q.qh with
        currentTdPtr := 0
        td := { Qtd.zero with nextQtd := virtToPhys q.head } } })
  else (none, q)

/-- The queue is polled, or the controller writes back the token of a descriptor and what its queue head
holds of the transfer. -/
inductive Event where
  | poll
  | complete (intrQtd token currentTdPtr : ℕ) (overlay : Qtd)
  deriving DecidableEq

namespace IntrQueue

def complete (q : IntrQueue) (intrQtd token currentTdPtr : ℕ) (overlay : Qtd) : IntrQueue :=
  { q with
    mem := Function.update q.mem intrQtd
      { q.mem intrQtd with td := { (q.mem intrQtd).td with token := token } }
    qh := { q.qh with currentTdPtr := currentTdPtr, td := overlay } }

def after (q : IntrQueue) : Event → IntrQueue
  | .poll => q.poll.2
  | .complete intrQtd token currentTdPtr overlay => q.complete intrQtd token currentTdPtr overlay

/-- No event is refused. -/
def step (q : IntrQueue) (e : Event) : Option IntrQueue := some (q.after e)

end IntrQueue

end ApuBios.Ehci
