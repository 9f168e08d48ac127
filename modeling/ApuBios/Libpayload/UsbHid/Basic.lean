import ApuBios.Library.Memory
import ApuBios.Library.Word

/-!
# USB keyboards

Model of `drivers/usb/usbhid.c` of libpayload: how the reports of a keyboard become characters, and the
buffer in which the characters wait.
-/

namespace ApuBios.UsbHid

/-! ### The keyboard buffer -/

def KEYBOARD_BUFFER_SIZE : ℕ := 16

/-- `keycount` and the bytes of `keybuffer`, whose elements are signed and have 16 bits. -/
structure Keys where
  keycount : ℕ
  keybuffer : Mem

namespace Keys

/-- `keybuffer[i]` -/
def key (k : Keys) (i : ℕ) : ℤ := Word.toInt 16 (k.keybuffer.readLE (2 * i) 2)

end Keys

/-- `usb_hid_keyboard_queue` -/
def usbHidKeyboardQueue (k : Keys) (ch : ℤ) : Keys :=
  -- ignore key presses if buffer full
  if k.keycount < KEYBOARD_BUFFER_SIZE then
    { k with
      keybuffer := k.keybuffer.writeLE (2 * k.keycount) 2 (Word.ofInt 16 ch)
      keycount := k.keycount + 1 }
  else k

/-- `usbhid_havechar` -/
def usbhidHavechar (k : Keys) : Bool := k.keycount ≠ 0

/-- `usbhid_getchar` -/
def usbhidGetchar (k : Keys) : ℤ × Keys :=
  if k.keycount = 0 then (0, k)
  else
    let ret := k.key 0
    let keycount := k.keycount - 1
    (ret, { k with keybuffer := k.keybuffer.memmove 0 2 keycount, keycount := keycount })

/-! ### Layouts -/

/-- The member `map` of `struct layout_maps`. -/
abbrev LayoutMap := Fin 4 → Fin 0x80 → ℤ

/-- An access to `map->map`. -/
def LayoutMap.entry (map : LayoutMap) (row key : ℕ) : Option ℤ :=
  if h : row < 4 ∧ key < 0x80 then some (map ⟨row, h.1⟩ ⟨key, h.2⟩) else none

def KEY_BREAK : ℤ := 0x101
def KEY_DOWN : ℤ := 0x102
def KEY_UP : ℤ := 0x103
def KEY_LEFT : ℤ := 0x104
def KEY_RIGHT : ℤ := 0x105
def KEY_HOME : ℤ := 0x106
def KEY_F (n : ℤ) : ℤ := 0x108 + n
def KEY_DC : ℤ := 0x14a
def KEY_IC : ℤ := 0x14b
def KEY_NPAGE : ℤ := 0x152
def KEY_PPAGE : ℤ := 0x153
def KEY_ENTER : ℤ := 0x157
def KEY_PRINT : ℤ := 0x15a
def KEY_END : ℤ := 0x166

/-- The characters from 0x04 to 0x27, which the shift modifier changes. -/
def letters : List Char :=
  ['a', 'b', 'c', 'd', 'e', 'f', 'g', 'h', 'i', 'j', 'k', 'l', 'm', 'n', 'o', 'p', 'q', 'r', 's', 't',
    'u', 'v', 'w', 'x', 'y', 'z', '1', '2', '3', '4', '5', '6', '7', '8', '9', '0']

def shiftedLetters : List Char :=
  ['A', 'B', 'C', 'D', 'E', 'F', 'G', 'H', 'I', 'J', 'K', 'L', 'M', 'N', 'O', 'P', 'Q', 'R', 'S', 'T',
    'U', 'V', 'W', 'X', 'Y', 'Z', '!', '@', '#', '$', '%', '^', '&', '*', '(', ')']

def codes (chars : List Char) : List ℤ := chars.map fun c => c.toNat

/-- A row of the layout, with its characters from 0x04 on and those for 0x2d, 0x2e and 0x33. -/
def layoutRow (chars : List Char) (minus equal semicolon : Char) : List ℤ :=
  [-1, -1, -1, -1] ++ codes chars ++
    [0x0a, 0x1b, 0x08, 0x09] ++ codes [' ', minus, equal, '[', ']', '\x5c'] ++ [-1] ++
    codes [semicolon, '\x27', '\x60', ',', '.', '/'] ++ [-1] ++
    (List.range 12).map (fun n => KEY_F (n + 1)) ++
    [KEY_PRINT, -1, KEY_BREAK, KEY_IC, KEY_HOME, KEY_PPAGE, KEY_DC, KEY_END, KEY_NPAGE, KEY_RIGHT,
      KEY_LEFT, KEY_DOWN, KEY_UP, -1] ++ codes ['/', '*', '-', '+'] ++
    [KEY_ENTER, KEY_END, KEY_DOWN, KEY_NPAGE, KEY_LEFT, -1, KEY_RIGHT, KEY_HOME, KEY_UP, KEY_PPAGE, -1,
      KEY_DC]

/-- The layout `"us"` of `keyboard_layouts`. The keys behind the last one of a row have no character. -/
def usLayout : LayoutMap := fun row key =>
  let rows :=
    [layoutRow letters '-' '=' ';', layoutRow shiftedLetters '_' '+' ':',
      layoutRow letters '-' '=' ';', layoutRow shiftedLetters '-' '=' ':']
  (rows.getD row []).getD key (-1)

/-! ### Reports -/

/-- `usb_hid_keyboard_event_t` -/
structure KeyboardEvent where
  modifiers : UInt8
  repeats : UInt8
  keys : Vector UInt8 6
  deriving DecidableEq

/-- `usbhid_inst_t`, with the buffer that all keyboards share, and how often the reset handler has been
called. -/
structure Inst where
  previous : KeyboardEvent
  lastkeypress : ℤ
  repeatDelay : ℤ
  keys : Keys
  resets : ℕ

def MOD_SHIFT : ℕ := 1 <<< 0
def MOD_ALT : ℕ := 1 <<< 1
def MOD_CTRL : ℕ := 1 <<< 2

def INITIAL_REPEAT_DELAY : ℤ := 10
def REPEAT_DELAY : ℤ := 2

/-- The modifiers that a report asks for. -/
def modifiersOf (m : UInt8) : ℕ :=
  (if m &&& 0x01 ≠ 0 then MOD_CTRL else 0) ||| (if m &&& 0x02 ≠ 0 then MOD_SHIFT else 0) |||
    (if m &&& 0x04 ≠ 0 then MOD_ALT else 0) ||| (if m &&& 0x10 ≠ 0 then MOD_CTRL else 0) |||
    (if m &&& 0x20 ≠ 0 then MOD_SHIFT else 0) ||| (if m &&& 0x40 ≠ 0 then MOD_ALT else 0)

/-- What the control key leaves of a character, if anything. -/
def ctrlMask (keypress : ℤ) : Option ℤ :=
  if 0x61 ≤ keypress ∧ keypress ≤ 0x7a then some ((keypress.toNat &&& 0x1f : ℕ) : ℤ) else none

/-- The loop over the keys of a report. An access outside of the layout is a fault. -/
def keyLoop (map : LayoutMap) (modifiers : ℕ) : List UInt8 → Inst → Option Inst
  | [], inst => some inst
  | key :: keys, inst =>
    -- no more keys? skip
    if key = 0 then some inst
    else if inst.previous.keys.toList.any (key == ·) then keyLoop map modifiers keys inst
    else
      -- mask off MOD_CTRL
      (map.entry (modifiers &&& 0x03) key.toNat).bind fun keypress =>
        let keypress := if modifiers &&& MOD_CTRL ≠ 0 then ctrlMask keypress else some keypress
        keyLoop map modifiers keys <| keypress.elim inst fun keypress =>
          -- unknown key? try next one in the queue
          if keypress = -1 then inst
          else
            { inst with
              keys := usbHidKeyboardQueue inst.keys keypress
              -- remember for authentic key repeat
              lastkeypress := keypress
              repeatDelay := INITIAL_REPEAT_DELAY }

/-- The vulcan nerve pinch, with or without a `reset_handler`. -/
def nervePinch (resetHandler : Bool) (inst : Inst) (current : KeyboardEvent) : Inst :=
  if current.modifiers &&& 0x05 ≠ 0 ∧ (current.keys[0] = 0x4c ∨ current.keys[0] = 0x63) ∧ resetHandler then
    { inst with resets := inst.resets + 1 }
  else inst

/-- `usb_hid_process_keyboard_event` -/
def usbHidProcessKeyboardEvent (map : LayoutMap) (resetHandler : Bool) (inst : Inst)
    (current : KeyboardEvent) : Option Inst :=
  let modifiers := modifiersOf current.modifiers
  let inst := nervePinch resetHandler inst current
  -- did the event change at all?
  if inst.lastkeypress ≠ 0 ∧ current = inst.previous then
    -- no. Then it's a key repeat event.
    if inst.repeatDelay ≠ 0 then some { inst with repeatDelay := inst.repeatDelay - 1 }
    else
      some { inst with
        keys := usbHidKeyboardQueue inst.keys inst.lastkeypress
        repeatDelay := REPEAT_DELAY }
  else
    keyLoop map modifiers current.keys.toList { inst with lastkeypress := 0 }

/-- One round of `usb_hid_poll`. -/
def usbHidPollStep (map : LayoutMap) (resetHandler : Bool) (inst : Inst) (current : KeyboardEvent) :
    Option Inst :=
  (usbHidProcessKeyboardEvent map resetHandler inst current).map fun inst =>
    { inst with previous := current }

end ApuBios.UsbHid
