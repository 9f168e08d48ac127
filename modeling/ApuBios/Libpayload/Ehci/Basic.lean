import ApuBios.Libpayload.Usb.Basic
import ApuBios.Libpayload.Usb.Schedule

/-!
# The EHCI driver

Model of `drivers/usb/ehci.c` of libpayload: the transfer descriptors (qTDs), the list of them that a
bulk transfer is cut into, and the queue of them for interrupt transfers. Descriptors lie at the
addresses that `memalign` returns.
-/

namespace ApuBios.Ehci

open Usb

/-! ### Transfer descriptors -/

def qtdTerminate : ℕ := 1

def qtdStatusMask : ℕ := 0xff

def qtdActive : ℕ := 1 <<< 7

def qtdPidShift : ℕ := 8

def qtdCerrShift : ℕ := 10

def qtdCpageShift : ℕ := 12

def qtdTotalLenShift : ℕ := 16

def qtdTotalLenMask : ℕ := ((1 <<< 15) - 1) <<< qtdTotalLenShift

def qtdToggleShift : ℕ := 31

/-- `qtd_t` -/
structure Qtd where
  nextQtd : ℕ
  altNextQtd : ℕ
  token : ℕ
  bufptrs : Vector ℕ 5
  deriving DecidableEq

namespace Qtd

/-- A descriptor of zero bytes. -/
def zero : Qtd := ⟨0, 0, 0, .replicate 5 0⟩

/-- How many bytes the descriptor transfers. -/
def totalLen (td : Qtd) : ℕ := (td.token &&& qtdTotalLenMask) >>> qtdTotalLenShift

/-- The data toggle. -/
def toggle (td : Qtd) : Bool := td.token.testBit qtdToggleShift

def setBufptr (td : Qtd) (i page : ℕ) : Qtd := { td with bufptrs := td.bufptrs.setIfInBounds i page }

@[simp] lemma setBufptr_token (td : Qtd) (i page : ℕ) : (td.setBufptr i page).token = td.token := rfl

@[simp] lemma setBufptr_nextQtd (td : Qtd) (i page : ℕ) :
    (td.setBufptr i page).nextQtd = td.nextQtd := rfl

lemma setBufptr_bufptrs (td : Qtd) (i page : ℕ) {j : ℕ} (hj : j < 5) :
    (td.setBufptr i page).bufptrs[j] = if i = j then page else td.bufptrs[j] := by
  simp [setBufptr, Vector.getElem_setIfInBounds]

end Qtd

/-- The loop of `fill_td`, with `left` page pointers left. -/
def fillPages (td : Qtd) (page datalen totalLen : ℕ) : (left : ℕ) → Qtd × ℕ
  | 0 => (td, totalLen)
  | left + 1 =>
    -- there is a contiguous mapping between virtual and physical memory
    let page := Word.add 32 page 4096
    let td := td.setBufptr (4 - left) page
    if datalen ≤ 4096 then (td, totalLen + datalen)
    else
      let totalLen := totalLen + 4096
      -- end TD at a packet boundary if transfer not complete
      let totalLen := if left = 0 then Word.alignDown 32 totalLen 512 else totalLen
      fillPages td page (datalen - 4096) totalLen left

/-- `fill_td`: fills in the buffer and returns how many bytes the descriptor handles. -/
def fillTd (td : Qtd) (data datalen : ℕ) : Qtd × ℕ :=
  let start := virtToPhys data
  let page := Word.alignDown 32 start 4096
  let offset := start &&& 4095
  let pageLen := 4096 - offset
  let td := { td with token := td.token ||| 0 <<< qtdCpageShift }.setBufptr 0 start
  let r := if datalen ≤ pageLen then (td, datalen) else fillPages td page (datalen - pageLen) pageLen 4
  ({ r.1 with token := r.1.token ||| r.2 <<< qtdTotalLenShift }, r.2)

/-- `EHCI_OUT`, `EHCI_IN` and `EHCI_SETUP` -/
def pidOf : Direction → ℕ
  | .out => 0
  | .in_ => 1
  | .setup => 2

/-! ### Bulk transfers -/

/-- The loop of `ehci_bulk` from its `i`th descriptor on, which lies at `mem i`. -/
def bulkLoop (mem : ℕ → ℕ) (pid : ℕ) : (fuel : ℕ) → (i data size : ℕ) → Option (List Qtd)
  | 0, _, _, _ => none
  | fuel + 1, i, data, size =>
    let cur := { Qtd.zero with token := qtdActive ||| pid <<< qtdPidShift ||| 0 <<< qtdCerrShift }
    let filled := fillTd cur data size
    let chunk := filled.2
    let size := size - chunk
    let data := Word.add 32 data chunk
    let cur := { filled.1 with altNextQtd := qtdTerminate }
    if size = 0 then some [{ cur with nextQtd := virtToPhys 0 ||| qtdTerminate }]
    else
      let next := mem (i + 1)
      (bulkLoop mem pid fuel (i + 1) data size).map ({ cur with nextQtd := virtToPhys next } :: ·)

/-- The list of descriptors that `ehci_bulk` hands over to the controller. The direction of an endpoint
for bulk transfers is in or out. -/
def ehciBulk (mem : ℕ → ℕ) (ep : Endpoint) (fuel data size : ℕ) : Option (List Qtd) :=
  let pid := if ep.direction = .in_ then pidOf .in_ else pidOf .out
  (bulkLoop mem pid fuel 0 data size).map fun tds =>
    tds.modifyHead fun head =>
      { head with token := head.token ||| if ep.toggle ≠ 0 then 1 <<< qtdToggleShift else 0 }

end ApuBios.Ehci
