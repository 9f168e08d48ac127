import ApuBios.Library.CString
import ApuBios.Library.Word

/-!
# The console in CBMEM

Model of `src/lib/cbmem_console.c`. The body of a console is the memory from `buffer_body` on,
with what follows the buffer.
-/

namespace ApuBios.CbmemConsole

/-- `struct cbmem_console` -/
structure Console where
  size : ℕ
  cursor : ℕ
  body : Mem

/-- `sizeof(struct cbmem_console)` -/
def sizeofConsole : ℕ := 8

/-- `cbmemc_tx_byte` on the current console. -/
def cbmemcTxByte (c : Console) (data : UInt8) : Console :=
  { c with
    cursor := Word.add 32 c.cursor 1
    body := if c.cursor < c.size then Function.update c.body c.cursor data else c.body }

/-- `loss_str1`: "\n\n*** Log truncated, " -/
def lossStr1 : List UInt8 :=
  [0x0a, 0x0a, 0x2a, 0x2a, 0x2a, 0x20, 0x4c, 0x6f, 0x67, 0x20, 0x74, 0x72, 0x75, 0x6e, 0x63, 0x61,
   0x74, 0x65, 0x64, 0x2c, 0x20]

/-- `loss_str2`: " characters dropped. ***\n\n" -/
def lossStr2 : List UInt8 :=
  [0x20, 0x63, 0x68, 0x61, 0x72, 0x61, 0x63, 0x74, 0x65, 0x72, 0x73, 0x20, 0x64, 0x72, 0x6f, 0x70,
   0x70, 0x65, 0x64, 0x2e, 0x20, 0x2a, 0x2a, 0x2a, 0x0a, 0x0a]

/-- The characters that the loop over `mult` stores, for at most `fuel` rounds. -/
def lossDigits : ℕ → (mult droppedChars : ℕ) → (gotFirstDigit : Bool) → List UInt8
  | 0, _, _, _ => []
  | fuel + 1, mult, droppedChars, gotFirstDigit =>
    if mult = 0 then []
    else
      let digit := droppedChars / mult
      if gotFirstDigit = true ∨ digit ≠ 0 then
        UInt8.ofNat (digit + 0x30) :: lossDigits fuel (mult / 10) (droppedChars % mult) true
      else lossDigits fuel (mult / 10) droppedChars gotFirstDigit

/-- The first value of `mult`; the loop has six rounds and ends. -/
def firstMult : ℕ := 100000

/-- What is written for the dropped characters: the two strings with their terminators, and the
digits between them. -/
def writeLoss (body : Mem) (cursor droppedChars : ℕ) : Mem × ℕ :=
  let body := body.writeBytes cursor (lossStr1 ++ [0])
  let cursor := cursor + lossStr1.length
  let digits := lossDigits 7 firstMult droppedChars false
  let body := body.writeBytes cursor digits
  let cursor := cursor + digits.length
  (body.writeBytes cursor (lossStr2 ++ [0]), cursor + lossStr2.length)

/-- `copy_size` before room is reserved for the report. -/
def copySize (old new : Console) : ℕ :=
  let stored := if old.cursor < old.size then old.cursor else old.size
  if new.size < new.cursor then 0
  else if new.size < Word.add 32 new.cursor stored then new.size - new.cursor
  else stored

/-- `copy_console_buffer` -/
def copyConsoleBuffer (old new : Console) : Console :=
  let copySize := copySize old new
  let droppedChars := Word.sub 32 old.cursor copySize
  if droppedChars = 0 then
    { new with
      body := new.body.writeBytes new.cursor (old.body.slice 0 copySize)
      cursor := new.cursor + copySize }
  else if copySize < 80 then new
  else
    let copySize := copySize - 80
    let droppedChars := Word.add 32 droppedChars 80
    let body := new.body.writeBytes new.cursor (old.body.slice 0 copySize)
    let written := writeLoss body (new.cursor + copySize) droppedChars
    { new with body := written.1, cursor := written.2 }

/-- The console in CBMEM: the one that `cbmem_find` finds, else one in what `cbmem_add` returns.
`bufferSize` is `CONFIG_CONSOLE_CBMEM_BUFFER_SIZE`. -/
def cbmemTarget (bufferSize : ℕ) (found : Option Console) (added : Option Mem) : Option Console :=
  match found with
  | some c => some c
  | none => added.map fun body => ⟨bufferSize - sizeofConsole, 0, body⟩

/-- `cbmemc_reinit`: the new current console, nothing if there is none. -/
def cbmemcReinit (bufferSize : ℕ) (found : Option Console) (added : Option Mem)
    (current : Console) : Option Console :=
  (cbmemTarget bufferSize found added).map (copyConsoleBuffer current)

/-- The text in a console. -/
def Console.text (c : Console) : List UInt8 :=
  c.body.slice 0 (min c.cursor c.size)

end ApuBios.CbmemConsole
