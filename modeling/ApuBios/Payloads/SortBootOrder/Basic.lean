import Mathlib.Data.BitVec
import Mathlib.Tactic

/-!
# The boot order menu

Model of `payloads/sortbootorder/sortbootorder.c`. A table of lines is a function from its rows,
and no value means that a character outside a row, or a row outside a table, is accessed. The
`bootorder` file fills one sector of the flash.
-/

namespace ApuBios.SortBootOrder

abbrev Char8 := BitVec 8

def MAX_DEVICES : ℕ := 64
def MAX_LENGTH : ℕ := 64
def NEWLINE : Char8 := 0x0a
def NUL : Char8 := 0x00
def FLASH_SIZE_CHUNK : ℕ := 0x1000

/-- The size of the file, as in `mainboard.c`. -/
def BOOTORDER_SIZE : ℕ := 4096

/-- `char [MAX_LENGTH]` -/
abbrev Row := {r : List Char8 // r.length = MAX_LENGTH}

/-- `char [MAX_DEVICES][MAX_LENGTH]`, without the bound on the rows. -/
abbrev Table := ℕ → Row

def Row.set (r : Row) (i : ℕ) (c : Char8) : Row := ⟨r.1.set i c, List.length_set.trans r.2⟩

def Row.first (r : Row) : Char8 := r.1.headD NUL

/-- What the program reads once, and the place of the file. -/
structure Files where
  bootlist_def : Table
  bootlist_def_ln : ℕ
  bootlist_map : Table
  max_lines : ℕ
  flash_address : ℕ
  bootlist_def_ln_le : bootlist_def_ln ≤ MAX_DEVICES
  max_lines_le : max_lines ≤ MAX_DEVICES

abbrev Flash := ℕ → Char8

/-- What the keys change. After the reset there is no more key. -/
structure Menu where
  bootlist : Table
  id : ℕ → Char8
  ipxe_toggle : Char8
  serial_toggle : Char8
  flash : Flash
  exited : Bool

/-! ### Lines -/

/-- `dest[i] = NUL` -/
def terminate : List Char8 → Option (List Char8)
  | _ :: dest => some (NUL :: dest)
  | [] => none

/-- The characters up to the newline are copied, and a terminator is put behind them. -/
def copyLine : List Char8 → List Char8 → Option (List Char8)
  | c :: src, _ :: dest =>
    (if c = NEWLINE then terminate dest else copyLine src dest).map (c :: ·)
  | _, _ => none

lemma copyLine_length {src dest r : List Char8} (h : copyLine src dest = some r) :
    r.length = dest.length := by
  induction src generalizing dest r with
  | nil => cases h
  | cons c src ih =>
    cases dest with
    | nil => cases h
    | cons d dest =>
      rw [copyLine] at h
      obtain ⟨r', hr', rfl⟩ := Option.map_eq_some_iff.mp h
      rw [List.length_cons, List.length_cons]
      split_ifs at hr'
      · cases dest with
        | nil => cases hr'
        | cons d' dest =>
          obtain rfl := Option.some.inj hr'
          rfl
      · rw [ih hr']

def copyListLine (src dest : Row) : Option Row :=
  match h : copyLine src.1 dest.1 with
  | none => none
  | some r => some ⟨r, (copyLine_length h).trans dest.2⟩

/-- Differences from characters that are not printable are skipped, the terminator of the second
string included. -/
def strcmpPrintableChar : List Char8 → List Char8 → Option ℤ
  | a :: s1, b :: s2 =>
    let res := a.toInt - b.toInt
    if a = NUL then
      some res
    else if res ≠ 0 ∧ 31 < a.toInt ∧ 31 < b.toInt then
      some res
    else
      strcmpPrintableChar s1 s2
  | _, _ => none

/-- The index of the first default that a line is equal to, or their number. -/
def findDef (line : List Char8) : List Row → Option ℕ
  | [] => some 0
  | d :: ds =>
    (strcmpPrintableChar line d.1).bind fun r =>
      if r = 0 then some 0 else (findDef line ds).map (· + 1)

/-! ### Identifiers -/

variable (f : Files)

def Files.defs : List Row := (List.range f.bootlist_def_ln).map f.bootlist_def

/-- The first character of what `show_boot_device_list` prints for a line. -/
def shown (line : List Char8) : Option Char8 :=
  (findDef line f.defs).bind fun y =>
    if y < MAX_DEVICES then some (f.bootlist_map y).first else none

/-- The step of the loop in `int_ids`; without a default the identifier is not changed. -/
def intId (bootlist : Table) (id : ℕ → Char8) (i : ℕ) : Option (ℕ → Char8) :=
  (findDef (bootlist i).1 f.defs).map fun y =>
    if y < f.bootlist_def_ln then Function.update id i (f.bootlist_map y).first else id

def intIds (m : Menu) : Option Menu :=
  ((List.range f.max_lines).foldlM (intId f m.bootlist) m.id).map fun id => { m with id }

/-- The first line with the identifier, or the first line. -/
def getLineNumber (m : Menu) (key : Char8) : ℕ :=
  ((List.range f.max_lines).find? fun i => m.id i == key).getD 0

/-! ### Moving a line -/

/-- The loop that shuffles the entries down. -/
def shuffle : ℕ → Table → (ℕ → Char8) → Option (Table × (ℕ → Char8))
  | 0, buffer, id => some (buffer, id)
  | x + 1, buffer, id =>
    (copyListLine (buffer x) (buffer (x + 1))).bind fun row =>
      shuffle x (Function.update buffer (x + 1) row) (Function.update id (x + 1) (id x))

/-- The row for the selection is uninitialised. -/
def moveBootList (temp_line : Row) (m : Menu) (line : ℕ) : Option Menu :=
  if line = 0 then
    some m
  else
    (copyListLine (m.bootlist line) temp_line).bind fun temp_line =>
      (shuffle line m.bootlist m.id).bind fun (buffer, id) =>
        (copyListLine temp_line (buffer 0)).map fun row =>
          { m with
            bootlist := Function.update buffer 0 row
            id := Function.update id 0 (m.id line) }

/-! ### The file -/

/-- The loop in `fetch_file_from_cbfs`. The number of iterations is that after which the last
check ends it. -/
def fetchLoop (cbfs_dat : ℕ → Char8) (cbfs_length : ℕ) :
    ℕ → Table → ℕ → ℕ → ℕ → Option (Table × ℕ)
  | 0, destination, line_count, _, _ => some (destination, line_count)
  | n + 1, destination, line_count, char_cnt, cbfs_offset =>
    let tmp := cbfs_dat cbfs_offset
    let cbfs_offset := cbfs_offset + 1
    if line_count < MAX_DEVICES ∧ char_cnt < MAX_LENGTH then
      let destination :=
        Function.update destination line_count ((destination line_count).set char_cnt tmp)
      if tmp ≠ NEWLINE ∧ (tmp = NUL ∨ cbfs_length < cbfs_offset) then
        some (destination, line_count)
      else
        let line_count := if tmp = NEWLINE then line_count + 1 else line_count
        let char_cnt := if tmp = NEWLINE then 0 else char_cnt + 1
        if MAX_DEVICES < line_count ∨ MAX_LENGTH < char_cnt ∨
            MAX_LENGTH * MAX_DEVICES < cbfs_offset then
          some (destination, line_count)
        else
          fetchLoop cbfs_dat cbfs_length n destination line_count char_cnt cbfs_offset
    else
      none

/-- The lines of a file and their number. -/
def fetchFileFromCbfs (cbfs_dat : ℕ → Char8) (cbfs_length : ℕ) (destination : Table) :
    Option (Table × ℕ) :=
  fetchLoop cbfs_dat cbfs_length (MAX_LENGTH * MAX_DEVICES + 1) destination 0 0 0

/-- The packed characters of a row, up to its newline. -/
def packLine : List Char8 → Option (List Char8)
  | [] => none
  | c :: cs => if c = NEWLINE then some [c] else (packLine cs).map (c :: ·)

def packLines (buffer : Table) (max_lines : ℕ) : Option (List Char8) :=
  (List.range max_lines).foldlM
    (fun cbfs_formatted_list j => (packLine (buffer j).1).map (cbfs_formatted_list ++ ·)) []

/-- The sector is set to `0xff`. -/
def erase (flash : Flash) (address : ℕ) : Flash := fun a =>
  if address ≤ a ∧ a < address + FLASH_SIZE_CHUNK then 0xff else flash a

/-- The bytes of the buffer from the position are programmed. -/
def write (flash : Flash) (address : ℕ) (bytes : List Char8) : Flash := fun a =>
  if address ≤ a then (bytes[a - address]?).getD (flash a) else flash a

/-- The characters of the list, its terminator, and what follows in the uninitialised buffer, are
written in pieces of four. The number of whole pieces is taken from one byte of the size, and the
size of the last piece is that of an `int`. -/
def saveFlash (stack : ℕ → Char8) (flash : Flash) (flash_address : ℕ) (buffer : Table)
    (max_lines : ℕ) : Option Flash :=
  (packLines buffer max_lines).bind fun list =>
    let list := list ++ [NUL]
    let i := list.length
    if i ≤ MAX_DEVICES * MAX_LENGTH then
      let piece nvram_pos :=
        (List.range' nvram_pos 4).map fun p => (list[p]?).getD (stack p)
      let pieces := (i &&& 0xfc) / 4
      let flash := (List.range pieces).foldl
        (fun flash n => write flash (4 * n + flash_address) (piece (4 * n)))
        (erase flash flash_address)
      some (write flash (4 * pieces + flash_address) (piece (4 * pieces)))
    else
      none

/-- The content of the file, where it is mapped into memory. -/
def cbfsFile (flash : Flash) (flash_address : ℕ) : ℕ → Char8 := fun offset =>
  flash (flash_address + offset)

/-! ### The main loop -/

def tagScon : List Char8 := [0x73, 0x63, 0x6f, 0x6e]
def tagPxen : List Char8 := [0x70, 0x78, 0x65, 0x6e]

def updateTagValue (buffer : Table) (max_lines : ℕ) (tag : List Char8) (value : Char8) : Table :=
  match (List.range max_lines).find? fun i => tag.isPrefixOf (buffer i).1 with
  | none => buffer
  | some i => Function.update buffer i ((buffer i).set tag.length value)

/-- `R`: the default lines are copied over the first lines. -/
def restore (m : Menu) : Option Menu :=
  ((List.range (min f.max_lines f.bootlist_def_ln)).foldlM
    (fun bootlist i => (copyListLine (f.bootlist_def i) (bootlist i)).map fun row =>
      Function.update bootlist i row) m.bootlist).bind fun bootlist =>
        intIds f { m with bootlist }

/-- `E`: the values of the toggles are put into their lines, and the list is saved. -/
def save (stack : ℕ → Char8) (m : Menu) : Option Menu :=
  let bootlist := updateTagValue m.bootlist f.max_lines tagScon (m.serial_toggle + 0x30)
  let bootlist := updateTagValue bootlist f.max_lines tagPxen (m.ipxe_toggle + 0x30)
  (saveFlash stack m.flash f.flash_address bootlist f.max_lines).map fun flash =>
    { m with bootlist, flash, exited := true }

def isLower (key : Char8) : Bool := 0x61 ≤ key && key ≤ 0x7a

/-- What a key does, with the uninitialised variables of the functions that are called. -/
def mainStep (temp_line : Row) (stack : ℕ → Char8) (m : Menu) (key : Char8) : Option Menu :=
  if m.exited then none
  else if key = 0x52 then restore f m
  else if key = 0x53 then some { m with serial_toggle := m.serial_toggle ^^^ 1 }
  else if key = 0x4e then some { m with ipxe_toggle := m.ipxe_toggle ^^^ 1 }
  else if key = 0x45 then save f stack m
  else if key = 0x58 then some { m with exited := true }
  else if isLower key then moveBootList temp_line m (getLineNumber f m key)
  else some m

end ApuBios.SortBootOrder
