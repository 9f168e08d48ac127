import ApuBios.Library.BitField
import ApuBios.Libpayload.Usb.Basic
import ApuBios.Libpayload.Usb.Schedule

/-!
# The XHCI driver

Model of the transfer rings of `drivers/usb/xhci.c` of libpayload: how transfer request blocks (TRBs) are
queued, and how a buffer is cut into them. A ring is an array of TRBs in memory whose last one is a
link back to the first one.
-/

namespace ApuBios.Xhci

open Usb

/-! ### Transfer request blocks -/

/-- `trb_t` -/
structure Trb where
  ptrLow : ℕ
  ptrHigh : ℕ
  status : ℕ
  control : ℕ
  deriving DecidableEq

/-- The names that `TRB_GET` and `TRB_SET` take for the fields of a TRB. -/
inductive Tok where
  | tl
  | tds
  | c
  | tc
  | ch
  | ioc
  | idt
  | tt
  | trt
  | dir
  deriving DecidableEq

def Tok.field : Tok → BitField
  | .tl => ⟨0, 17⟩
  | .tds => ⟨17, 5⟩
  | .c => ⟨0, 1⟩
  | .tc => ⟨1, 1⟩
  | .ch => ⟨4, 1⟩
  | .ioc => ⟨5, 1⟩
  | .idt => ⟨6, 1⟩
  | .tt => ⟨10, 6⟩
  | .trt => ⟨16, 2⟩
  | .dir => ⟨16, 1⟩

/-- The lengths are in `status`, the other fields in `control`. -/
def Tok.inStatus : Tok → Bool
  | .tl | .tds => true
  | _ => false

/-- `TRB_GET` -/
def Trb.get (trb : Trb) (tok : Tok) : ℕ := tok.field.get (if tok.inStatus then trb.status else trb.control)

/-- `TRB_SET` -/
def Trb.set (trb : Trb) (tok : Tok) (v : ℕ) : Trb :=
  if tok.inStatus then { trb with status := tok.field.set trb.status v }
  else { trb with control := tok.field.set trb.control v }

def trbNormal : ℕ := 1

def trbSetupStage : ℕ := 2

def trbDataStage : ℕ := 3

def trbStatusStage : ℕ := 4

def trbLink : ℕ := 6

def trbDirOut : ℕ := 0

def trbDirIn : ℕ := 1

/-- `xhci_clear_trb` -/
def clearTrb (pcs : ℕ) : Trb := ⟨0, 0, 0, if pcs = 0 then 1 else 0⟩

/-! ### Rings -/

def transferRingSize : ℕ := 32

/-- `transfer_ring_t`, with the TRBs that the memory holds. -/
structure TransferRing where
  ring : ℕ
  cur : ℕ
  pcs : ℕ
  mem : ℕ → Trb

namespace TransferRing

def modify (tr : TransferRing) (p : ℕ) (f : Trb → Trb) : TransferRing :=
  { tr with mem := Function.update tr.mem p (f (tr.mem p)) }

end TransferRing

/-- `xhci_init_cycle_ring` -/
def initCycleRing (tr : TransferRing) (ringSize : ℕ) : TransferRing :=
  let tr := { tr with mem := fun p =>
    if tr.ring ≤ p ∧ p < tr.ring + 16 * ringSize then ⟨0, 0, 0, 0⟩ else tr.mem p }
  let tr := tr.modify (tr.ring + 16 * (ringSize - 1)) fun trb =>
    { (trb.set .tt trbLink).set .tc 1 with ptrLow := virtToPhys tr.ring }
  { tr with pcs := 1, cur := tr.ring }

/-- The loop of `xhci_enqueue_trb`, which passes the links. -/
def passLinks (chain : ℕ) : (fuel : ℕ) → TransferRing → Option TransferRing
  | 0, _ => none
  | fuel + 1, tr =>
    if (tr.mem tr.cur).get .tt = trbLink then
      let tc := (tr.mem tr.cur).get .tc
      let tr := tr.modify tr.cur fun trb => (trb.set .ch chain).set .c tr.pcs
      let tr := { tr with cur := (tr.mem tr.cur).ptrLow }
      passLinks chain fuel (if tc ≠ 0 then { tr with pcs := tr.pcs ^^^ 1 } else tr)
    else some tr

/-- `xhci_enqueue_trb` -/
def enqueueTrb (fuel : ℕ) (tr : TransferRing) : Option TransferRing :=
  let chain := (tr.mem tr.cur).get .ch
  let tr := tr.modify tr.cur fun trb => trb.set .c tr.pcs
  passLinks chain fuel { tr with cur := tr.cur + 16 }

/-! ### Transfer descriptors -/

/-- The TRB that a round of `xhci_enqueue_td` fills in. -/
def fillTrb (pcs curStart curLength packets : ℕ) (dataStage : Bool) (dir length : ℕ) : Trb :=
  let trb := { clearTrb pcs with ptrLow := virtToPhys curStart }
  let trb := trb.set .tl curLength
  let trb := trb.set .tds packets
  -- check for first, data stage TRB
  let trb := if dataStage then (trb.set .dir dir).set .tt trbDataStage else trb.set .tt trbNormal
  -- check for last TRB
  if length = 0 then trb.set .ioc 1 else trb.set .ch 1

/-- The loop of `xhci_enqueue_td`. -/
def tdLoop (ep mps dir : ℕ) : (fuel : ℕ) → TransferRing →
    (curStart length packets residue trbCount : ℕ) → Option TransferRing
  | 0, _, _, _, _, _, _ => none
  | fuel + 1, tr, curStart, length, packets, residue, trbCount =>
    if length ≠ 0 ∨ trbCount = 0 then
      let curEnd := Word.alignDown 32 (Word.add 32 curStart 0x10000) 0x10000
      let curLength := Word.sub 32 curEnd curStart
      let short := decide (length < curLength)
      let packets' := if short then 0 else packets - (residue + curLength) / mps
      let residue' := if short then residue else (residue + curLength) % mps
      let length' := if short then 0 else length - curLength
      let curLength := if short then length else curLength
      let trb := fillTrb tr.pcs curStart curLength packets' (trbCount = 0 ∧ ep = 1) dir length'
      (enqueueTrb fuel (tr.modify tr.cur fun _ => trb)).bind fun tr =>
        tdLoop ep mps dir fuel tr (Word.add 32 curStart curLength) length' packets' residue' (trbCount + 1)
    else some tr

/-- `xhci_enqueue_td` -/
def enqueueTd (fuel : ℕ) (tr : TransferRing) (ep mps dalen data dir : ℕ) : Option TransferRing :=
  let packets := Word.sub 32 (Word.add 32 dalen mps) 1 / mps
  tdLoop ep mps dir fuel tr data dalen packets 0 0

/-- `EC_GET(MPS, ..)` of the second word of an endpoint context. -/
def ecMps (f2 : ℕ) : ℕ := BitField.get ⟨16, 16⟩ f2

/-- What `xhci_bulk` queues, unless the size is unsupported. -/
def bulkQueue (fuel : ℕ) (tr : TransferRing) (epId f2 size data : ℕ) (direction : Direction) :
    Option (Option TransferRing) :=
  let off := data &&& 0xffff
  if off + size > (transferRingSize - 1) <<< 16 then none
  else
    let dir := if direction = .out then trbDirOut else trbDirIn
    some (enqueueTd fuel tr epId (ecMps f2) size data dir)

/-- The setup TRB that `xhci_control` fills in for the request with the two words `devreq`. -/
def setupTrb (pcs : ℕ) (direction : Direction) (devreq : ℕ × ℕ) (dalen : ℕ) : Trb :=
  let trt := if dalen ≠ 0 then if direction = .out then 2 else 3 else 0
  let setup := { clearTrb pcs with ptrLow := devreq.1, ptrHigh := devreq.2 }
  ((((setup.set .tl 8).set .trt trt).set .tt trbSetupStage).set .idt 1).set .ioc 1

/-- The status TRB that `xhci_control` fills in. -/
def statusTrb (pcs : ℕ) (direction : Direction) : Trb :=
  let status := (clearTrb pcs).set .dir (if direction = .out then trbDirIn else trbDirOut)
  (status.set .tt trbStatusStage).set .ioc 1

/-- What `xhci_control` queues, unless the size is unsupported: the TRBs of the setup stage, of the data
stage if there is one, and of the status stage. -/
def controlQueue (fuel : ℕ) (tr : TransferRing) (f2 : ℕ) (direction : Direction) (devreq : ℕ × ℕ)
    (dalen data : ℕ) : Option (Option TransferRing) :=
  let off := data &&& 0xffff
  if off + dalen > (transferRingSize - 3) <<< 16 then none
  else
    let dtDir := if direction = .out then trbDirOut else trbDirIn
    some <| (enqueueTrb fuel (tr.modify tr.cur fun _ => setupTrb tr.pcs direction devreq dalen)).bind fun tr =>
      (if dalen ≠ 0 then enqueueTd fuel tr 1 (ecMps f2) dalen data dtDir else some tr).bind fun tr =>
        enqueueTrb fuel (tr.modify tr.cur fun _ => statusTrb tr.pcs direction)

end ApuBios.Xhci
