import ApuBios.Library.Transition
import ApuBios.Library.Word

/-!
# The video console

Model of `drivers/video/video.c` of libpayload: a cursor in front of the driver of a console.
-/

namespace ApuBios.VideoConsole

/-- What the driver is asked for. -/
inductive Call where
  | putc (row col ch : ℕ)
  | scrollUp
  | clear
  | setCursor (x y : ℕ)
  | enableCursor (state : ℤ)
  deriving DecidableEq

/-- `struct video_console`: the size, and which of the optional functions there are. -/
structure Console where
  rows : ℕ
  columns : ℕ
  hasSetCursor : Bool
  hasEnableCursor : Bool

/-- The variables of `video.c`. -/
structure Cursor where
  cursorx : ℤ
  cursory : ℤ
  cursorEnabled : ℕ
  deriving DecidableEq

/-- The calls of the driver, and the cursor unless the function never returns. -/
abbrev Effect := List Call × Option Cursor

variable (con : Console)

/-- `if (console && console->set_cursor) console->set_cursor(cursorx, cursory)` -/
def setDriverCursor (cursorx cursory : ℤ) : List Call :=
  if con.hasSetCursor then [.setCursor (Word.ofInt 32 cursorx) (Word.ofInt 32 cursory)] else []

/-- `if (console && console->enable_cursor) console->enable_cursor(state)` -/
def enableDriverCursor (state : ℤ) : List Call :=
  if con.hasEnableCursor then [.enableCursor state] else []

/-- `while(cursory >= console->rows)`. The comparison is one of unsigned values, so there are at most
`2 ^ 32` rounds, if the loop ends at all. -/
def scrollLoop : (fuel : ℕ) → (cursory : ℤ) → List Call × Option ℤ
  | 0, _ => ([], none)
  | fuel + 1, cursory =>
    if con.rows ≤ Word.ofInt 32 cursory then
      let r := scrollLoop fuel (Word.toInt 32 (cursory - 1))
      (.scrollUp :: r.1, r.2)
    else ([], some cursory)

/-- `video_console_fixup_cursor` up to the loop. -/
def wrapCursor (cursorx cursory : ℤ) : ℤ × ℤ :=
  let x := if cursorx < 0 then 0 else cursorx
  let y := if cursory < 0 then 0 else cursory
  if con.columns ≤ Word.ofInt 32 x then (0, Word.toInt 32 (y + 1)) else (x, y)

/-- `video_console_fixup_cursor` -/
def videoConsoleFixupCursor (s : Cursor) : Effect :=
  if s.cursorEnabled = 0 then ([], some s)
  else
    let p := wrapCursor con s.cursorx s.cursory
    let r := scrollLoop con (2 ^ 32) p.2
    r.2.elim (r.1, none) fun y =>
      (r.1 ++ setDriverCursor con p.1 y, some { s with cursorx := p.1, cursory := y })

/-- `video_console_cursor_enable` -/
def videoConsoleCursorEnable (state : ℤ) (s : Cursor) : Effect :=
  let s := { s with cursorEnabled := Word.ofInt 32 state }
  if s.cursorEnabled ≠ 0 then
    let r := videoConsoleFixupCursor con s
    (enableDriverCursor con state ++ r.1, r.2)
  else (enableDriverCursor con state, some s)

/-- `video_console_clear` -/
def videoConsoleClear (s : Cursor) : Effect :=
  (.clear :: setDriverCursor con 0 0, some { s with cursorx := 0, cursory := 0 })

/-- The loop for a tab, which stops at a multiple of eight. -/
def tabLoop (ch : ℕ) : (fuel : ℕ) → (cursorx cursory : ℤ) → List Call × ℤ
  | 0, cursorx, _ => ([], cursorx)
  | fuel + 1, cursorx, cursory =>
    if cursorx.tmod 8 ≠ 0 ∧ Word.ofInt 32 cursorx < con.columns then
      let r := tabLoop ch fuel (Word.toInt 32 (cursorx + 1)) cursory
      (.putc (Word.ofInt 8 cursory) (Word.ofInt 8 cursorx) (ch &&& 0xFF00 ||| 0x20) :: r.1, r.2)
    else ([], cursorx)

/-- Black on black is replaced with light gray on black. -/
def replaceBlack (ch : ℕ) : ℕ := if ch &&& 0xFF00 = 0 then ch ||| 0x0700 else ch

/-- The `switch` of `video_console_putchar`. -/
def putcharSwitch (ch : ℕ) (s : Cursor) : List Call × Cursor :=
  match ch &&& 0xFF with
  | 0x0D => ([], { s with cursorx := 0 })
  | 0x0A => ([], { s with cursory := Word.toInt 32 (s.cursory + 1) })
  | 0x08 =>
    let x := Word.toInt 32 (s.cursorx - 1)
    if x < 0 then
      ([], { s with cursorx := Word.toInt 32 con.columns, cursory := Word.toInt 32 (s.cursory - 1) })
    else ([], { s with cursorx := x })
  | 0x09 =>
    let r := tabLoop con ch 8 s.cursorx s.cursory
    (r.1, { s with cursorx := r.2 })
  | _ =>
    ([.putc (Word.ofInt 8 s.cursory) (Word.ofInt 8 s.cursorx) ch],
      { s with cursorx := Word.toInt 32 (s.cursorx + 1) })

/-- `video_console_putchar` -/
def videoConsolePutchar (ch : ℕ) (s : Cursor) : Effect :=
  let r := putcharSwitch con (replaceBlack ch) s
  let t := videoConsoleFixupCursor con r.2
  (r.1 ++ t.1, t.2)

/-- `video_console_set_cursor` -/
def videoConsoleSetCursor (x y : ℕ) (s : Cursor) : Effect :=
  videoConsoleFixupCursor con { s with cursorx := Word.toInt 32 x, cursory := Word.toInt 32 y }

/-- `video_init` for a console whose driver reports a position and whether its cursor is enabled, if
there is `get_cursor`. -/
def videoInit (report : Option (ℕ × ℕ × ℕ)) : Effect :=
  let s := report.elim ⟨0, 0, 1⟩ fun r => ⟨Word.toInt 32 r.1, Word.toInt 32 r.2.1, r.2.2⟩
  let s := if s.cursorx ≠ 0 then { s with cursorx := 0, cursory := Word.toInt 32 (s.cursory + 1) } else s
  videoConsoleFixupCursor con s

/-! ### Runs -/

/-- A call of one of the functions. -/
inductive Op where
  | putchar (ch : ℕ)
  | setCursor (x y : ℕ)
  | clear
  | cursorEnable (state : ℤ)

def perform : Op → Cursor → Effect
  | .putchar ch => videoConsolePutchar con ch
  | .setCursor x y => videoConsoleSetCursor con x y
  | .clear => videoConsoleClear con
  | .cursorEnable state => videoConsoleCursorEnable con state

def step (s : Cursor) (op : Op) : Option Cursor := (perform con op s).2

end ApuBios.VideoConsole
