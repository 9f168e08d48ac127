import ApuBios.Libpayload.Usb.Basic
import ApuBios.Libpayload.Usb.Schedule

/-!
# The OHCI driver

Model of the transfer descriptors of `drivers/usb/ohci.c` of libpayload that a bulk transfer and a control
transfer are cut into. Descriptors lie at the addresses that `memalign` returns.
-/

namespace ApuBios.Ohci

open Usb

/-! ### Transfer descriptors -/

def ohciSetup : ℕ := 0

def ohciOut : ℕ := 1

def ohciIn : ℕ := 2

def tdDirectionShift : ℕ := 19

def tdDirectionSetup : ℕ := ohciSetup <<< tdDirectionShift

def tdDirectionIn : ℕ := ohciIn <<< tdDirectionShift

def tdDirectionOut : ℕ := ohciOut <<< tdDirectionShift

def tdDelayInterruptShift : ℕ := 21

def tdDelayInterruptMask : ℕ := ((1 <<< 3) - 1) <<< tdDelayInterruptShift

def tdDelayInterruptZero : ℕ := 0

def tdDelayInterruptNointr : ℕ := 7 <<< tdDelayInterruptShift

def tdToggleData0 : ℕ := 0

def tdToggleData1 : ℕ := 1 <<< 24

def tdToggleFromEd : ℕ := 0

def tdToggleFromTd : ℕ := 1 <<< 25

def tdCcShift : ℕ := 28

def tdCcNoaccess : ℕ := 14 <<< tdCcShift

/-- `td_t` -/
structure Td where
  config : ℕ
  currentBufferPointer : ℕ
  nextTd : ℕ
  bufferEnd : ℕ
  deriving DecidableEq

/-- A descriptor of zero bytes. -/
def Td.zero : Td := ⟨0, 0, 0, 0⟩

/-- The address of the last of `n` bytes. -/
def lastByte (data n : ℕ) : ℕ := Word.sub 32 (Word.add 32 data n) 1

/-- `pages`: how many pages a buffer extends into. -/
def pageCount (data dalen : ℕ) : ℕ :=
  let firstPage := data / 4096
  let lastPage := lastByte data dalen / 4096
  let lastPage := if lastPage < firstPage then firstPage else lastPage
  if dalen = 0 then 0 else lastPage - firstPage + 1

/-- What is left of a buffer, and of its pages. -/
structure Rest where
  data : ℕ
  dalen : ℕ
  pages : ℤ

/-- The end of the buffer of a descriptor, which extends into a second page if there is more. -/
def fillEnd (cur : Td) (r : Rest) : Td × Rest :=
  let consumed := 4096 - r.data % 4096
  if consumed ≥ r.dalen then
    -- end of data is within same page
    ({ cur with bufferEnd := virtToPhys (lastByte r.data r.dalen) }, { r with dalen := 0 })
  else
    let dalen := r.dalen - consumed
    let data := Word.add 32 r.data consumed
    let secondPageSize := if dalen > 4096 then 4096 else dalen
    ({ cur with bufferEnd := virtToPhys (lastByte data secondPageSize) },
      ⟨Word.add 32 data secondPageSize, dalen - secondPageSize, r.pages - 1⟩)

/-! ### Bulk transfers -/

/-- The loop of `ohci_bulk` from its `i`th descriptor on, which lies at `mem i`. Returns the descriptors
and how many bytes are left. -/
def bulkLoop (mem : ℕ → ℕ) (config : ℕ) : (left : ℕ) → (i : ℕ) → Rest → List Td × ℕ
  | 0, _, r => ([], r.dalen)
  | left + 1, i, r =>
    let cur := { Td.zero with config := config, currentBufferPointer := virtToPhys r.data }
    -- magic TD for empty packet transfer
    let cur := if r.dalen = 0 then { cur with currentBufferPointer := 0, bufferEnd := 0 } else cur
    let filled := fillEnd cur { r with pages := r.pages - 1 }
    let next := mem (i + 1)
    let tds := bulkLoop mem config left (i + 1) filled.2
    ({ filled.1 with nextTd := virtToPhys next } :: tds.1, tds.2)

/-- The descriptors that `ohci_bulk` queues before the dummy, and how many bytes are left. -/
def ohciBulk (mem : ℕ → ℕ) (ep : Endpoint) (dalen data : ℕ) (finalize : Bool) : List Td × ℕ :=
  let pages := pageCount data dalen
  let tdCount := (pages + 1) / 2
  let tdCount := if finalize ∧ dalen % ep.maxpacketsize = 0 then tdCount + 1 else tdCount
  let config := (if ep.direction = .in_ then tdDirectionIn else tdDirectionOut) |||
    tdDelayInterruptNointr ||| tdToggleFromEd ||| tdCcNoaccess
  let r := bulkLoop mem config tdCount 0 ⟨data, dalen, pages⟩
  -- write done head after last TD
  (r.1.modify (r.1.length - 1) fun cur =>
    { cur with config := cur.config &&& Word.not 32 tdDelayInterruptMask }, r.2)

/-! ### Control transfers -/

/-- The loop of `ohci_control`, after the descriptor at `mem i`. -/
def dataLoop (mem : ℕ → ℕ) (config : ℕ) : (fuel : ℕ) → (i : ℕ) → Rest → Option (List Td × ℕ)
  | 0, _, _ => none
  | fuel + 1, i, r =>
    if r.pages > 0 then
      let cur := { Td.zero with config := config, currentBufferPointer := virtToPhys r.data }
      let filled := fillEnd cur { r with pages := r.pages - 1 }
      -- the next descriptor is linked when it is allocated, in the next round or after the loop
      let next := mem (i + 2)
      (dataLoop mem config fuel (i + 1) filled.2).map fun tds =>
        ({ filled.1 with nextTd := virtToPhys next } :: tds.1, tds.2)
    else some ([], r.dalen)

/-- The descriptor for the request, which is linked to the one at `next`. -/
def firstTd (drlen devreq next : ℕ) : Td where
  config := tdDirectionSetup ||| tdDelayInterruptNointr ||| tdToggleFromTd ||| tdToggleData0 |||
    tdCcNoaccess
  currentBufferPointer := virtToPhys devreq
  nextTd := virtToPhys next
  bufferEnd := virtToPhys (lastByte devreq drlen)

/-- The descriptor for the status, which is linked to the dummy at `next`. -/
def statusTd (dir : Direction) (next : ℕ) : Td where
  -- write done head after this TD
  config := (if dir = .in_ then tdDirectionOut else tdDirectionIn) ||| tdDelayInterruptZero |||
    tdToggleFromTd ||| tdToggleData1 ||| tdCcNoaccess
  currentBufferPointer := 0
  nextTd := virtToPhys next
  bufferEnd := 0

/-- The descriptors that `ohci_control` queues before the dummy, and how many bytes are left. -/
def ohciControl (mem : ℕ → ℕ) (dir : Direction) (drlen devreq dalen data fuel : ℕ) :
    Option (List Td × ℕ) :=
  let config := (if dir = .in_ then tdDirectionIn else tdDirectionOut) ||| tdDelayInterruptNointr |||
    tdToggleFromEd ||| tdCcNoaccess
  (dataLoop mem config fuel 0 ⟨data, dalen, pageCount data dalen⟩).map fun r =>
    (firstTd drlen devreq (mem 1) :: r.1 ++ [statusTd dir (mem (r.1.length + 2))], r.2)

end ApuBios.Ohci
