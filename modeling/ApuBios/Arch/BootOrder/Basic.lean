import ApuBios.Lib.Cbfs.Basic
import ApuBios.Lib.Cbmem.Basic

/-!
# The boot order in CBMEM

Model of the last part of `write_tables` in `src/arch/x86/boot/tables.c`, with
`read_bootorder_from_cbfs` in `src/lib/cbfs.c` and `get_mainboard_bootorder_table` of the board.
The result is `none` where the code stops in `die`, or does not find the end of a string within
`fuel` bytes.
-/

namespace ApuBios.BootOrder

open Cbfs Cbmem

/-- "BOOT" -/
def CBMEM_ID_BOOTORDER : ℕ := 0x424f4f54

def BOOTORDER_SIZE : ℕ := 4096

/-- `struct bootorder_container` without the data behind it. -/
structure BootorderContainer where
  signature : ℕ
  size : ℕ
  fileName : {name : List UInt8 // name.length = 16}

/-- `sizeof(struct bootorder_container)` -/
def sizeofBootorderContainer : ℕ := 24

/-- `cbmem_size` in `write_tables` -/
def cbmemSize : ℕ := 0x400

/-- The name of the file in CBFS: "bootorder" -/
def filename : List UInt8 := [0x62, 0x6f, 0x6f, 0x74, 0x6f, 0x72, 0x64, 0x65, 0x72]

/-- The line for the setup: "!/rom@img/setup\n" -/
def string : List UInt8 :=
  [0x21, 0x2f, 0x72, 0x6f, 0x6d, 0x40, 0x69, 0x6d, 0x67, 0x2f, 0x73, 0x65, 0x74, 0x75, 0x70, 0x0a]

/-- The container and the data pointer for the file record that `cbfs_get_file` returned. -/
def readBootorderFromCbfs (m : Mem) (c : BootorderContainer) (cbfsFile : ℕ) :
    Option (BootorderContainer × ℕ) :=
  if cbfsFile = 0 then none
  else
    some (
      { signature := CBMEM_ID_BOOTORDER
        size := be32 m (cbfsFile + 8)
        fileName := ⟨filename ++ 0 :: c.fileName.1.drop 10, by
          simp [filename, c.fileName.2]⟩ },
      cbfsSubheader m cbfsFile)

/-- `dataBuf` is the static `data_buf`, and `cmosConsoleSetting` is what `get_option` leaves. -/
def getMainboardBootorderTable (m : Mem) (fuel : ℕ) (c : BootorderContainer)
    (cbfsFile dataBuf cmosConsoleSetting : ℕ) : Option (Mem × BootorderContainer × ℕ) :=
  (readBootorderFromCbfs m c cbfsFile).bind fun (c, data) =>
    (m.strlen fuel data).bind fun length =>
      let length := if (BOOTORDER_SIZE : ℤ) < Word.toInt 32 length then BOOTORDER_SIZE else length
      let m := m.memcpy dataBuf data length
      -- the end of the data is also looked for behind the buffer
      (m.strlen fuel dataBuf).map fun n =>
        let str := if cmosConsoleSetting ≠ 0 then string.drop 1 else string
        let m := m.writeBytes (dataBuf + n) str
        (Function.update m (dataBuf + n + str.length) 0, c, dataBuf)

/-- What `write_tables` does to CBMEM. -/
structure Written where
  /-- The memory before and after the copy. -/
  before : Mem
  after : Mem
  area : CbmemArea
  entry : ℕ
  /-- The number of bytes that are stored from `entry` on. -/
  totalSize : ℕ

/-- The stores to the entry at `p`. -/
def copyBootorder (m : Mem) (p : ℕ) (c : BootorderContainer) (data : ℕ) : Mem :=
  let m := m.writeLE p 4 c.signature
  let m := m.writeLE (p + 4) 4 c.size
  let m := m.writeBytes (p + 8) c.fileName.1
  m.memcpy (p + sizeofBootorderContainer) data c.size

/-- `tmpboot` is what the stack held. -/
def writeTables (m : Mem) (fuel : ℕ) (s : CbmemArea) (tmpboot : BootorderContainer)
    (cbfsFile dataBuf cmosConsoleSetting : ℕ) : Option Written :=
  (getMainboardBootorderTable m fuel tmpboot cbfsFile dataBuf cmosConsoleSetting).bind
    fun (m, tmpboot, dptr) =>
      let (s, p) := cbmemAdd s CBMEM_ID_BOOTORDER cbmemSize
      if p = 0 then none
      else
        some
          { before := m
            after := copyBootorder m p tmpboot dptr
            area := s
            entry := p
            totalSize := tmpboot.size + sizeofBootorderContainer }

end ApuBios.BootOrder

/-!
# The text in the buffer

`get_mainboard_bootorder_table` copies the text in the flash to a static buffer, looks for its end
there, and appends the line for the setup.
-/

namespace ApuBios.BootOrder

open Cbfs

variable {m : Mem} {c : BootorderContainer} {fuel cbfsFile dataBuf cmosConsoleSetting : ℕ}

/-- The line that is appended. -/
def setupLine (cmosConsoleSetting : ℕ) : List UInt8 :=
  if cmosConsoleSetting ≠ 0 then string.drop 1 else string

/-- The number of bytes that are copied of a text of the given length. -/
def copyLength (length : ℕ) : ℕ :=
  if (BOOTORDER_SIZE : ℤ) < Word.toInt 32 length then BOOTORDER_SIZE else length

/-- The call leaves the text and the line in the buffer, with a zero byte behind them; the end of
the text is found in the buffer, the last byte is stored in the buffer, and nothing outside the
buffer is changed. -/
structure Appends (m : Mem) (c : BootorderContainer)
    (cbfsFile dataBuf cmosConsoleSetting fuel length found : ℕ) (m' : Mem) : Prop where
  text : m.strlen fuel (cbfsSubheader m cbfsFile) = some length
  search : (m.memcpy dataBuf (cbfsSubheader m cbfsFile) (copyLength length)).strlen fuel dataBuf =
    some found
  result : ∃ c', getMainboardBootorderTable m fuel c cbfsFile dataBuf cmosConsoleSetting =
    some (m', c', dataBuf)
  content : m'.Holds dataBuf
    (m.slice (cbfsSubheader m cbfsFile) length ++ (setupLine cmosConsoleSetting ++ [0]))
  inside : found + (setupLine cmosConsoleSetting).length < BOOTORDER_SIZE
  others : ∀ a, a < dataBuf ∨ dataBuf + BOOTORDER_SIZE ≤ a → m' a = m a

/-- A text that does not fill the buffer is copied as a whole, and of every other text at least
as much as the buffer holds. -/
lemma copyLength_cases (length : ℕ) : copyLength length = length ∨
    (copyLength length = BOOTORDER_SIZE ∧ BOOTORDER_SIZE < length) := by
  rw [copyLength]
  split_ifs with hlong
  · refine Or.inr ⟨rfl, ?_⟩
    by_contra hshort
    rw [Word.toInt_eq (by rw [BOOTORDER_SIZE] at hshort; omega)] at hlong
    omega
  · exact Or.inl rfl

/-- The first bytes of the buffer after the copy. -/
lemma memcpy_buffer {data length k : ℕ}
    (hapart : data + BOOTORDER_SIZE ≤ dataBuf ∨ dataBuf + BOOTORDER_SIZE ≤ data)
    (hk : k < BOOTORDER_SIZE) (hlength : k < length) :
    m.memcpy dataBuf data length (dataBuf + k) = m (data + k) := by
  obtain ⟨rest, hrest⟩ : ∃ rest, length = (k + 1) + rest := ⟨length - (k + 1), by omega⟩
  rw [hrest, Mem.memcpy_add, Mem.memcpy_frame (by omega)]
  exact Mem.memcpy_read (by omega) (Nat.lt_succ_self k)

/-- The call in terms of its parts. -/
lemma getMainboardBootorderTable_eq (c : BootorderContainer) (cmosConsoleSetting : ℕ)
    (hfile : cbfsFile ≠ 0) {length found : ℕ}
    (htext : m.strlen fuel (cbfsSubheader m cbfsFile) = some length)
    (hfound : (m.memcpy dataBuf (cbfsSubheader m cbfsFile) (copyLength length)).strlen fuel
      dataBuf = some found) :
    ∃ c', getMainboardBootorderTable m fuel c cbfsFile dataBuf cmosConsoleSetting =
      some (Function.update
        ((m.memcpy dataBuf (cbfsSubheader m cbfsFile) (copyLength length)).writeBytes
          (dataBuf + found) (setupLine cmosConsoleSetting))
        (dataBuf + found + (setupLine cmosConsoleSetting).length) 0, c', dataBuf) := by
  obtain ⟨c', hread⟩ : ∃ c', readBootorderFromCbfs m c cbfsFile =
      some (c', cbfsSubheader m cbfsFile) := ⟨_, if_neg hfile⟩
  rw [copyLength] at hfound
  refine ⟨c', ?_⟩
  rw [getMainboardBootorderTable, hread]
  simp only [Option.bind_some, htext, hfound, Option.map_some]
  rfl

/-- The text ends early enough for the line. -/
lemma Appends.exists_end {length found : ℕ} {m' : Mem}
    (h : Appends m c cbfsFile dataBuf cmosConsoleSetting fuel length found m')
    (hapart : cbfsSubheader m cbfsFile + BOOTORDER_SIZE ≤ dataBuf ∨
      dataBuf + BOOTORDER_SIZE ≤ cbfsSubheader m cbfsFile) :
    ∃ k, k + (setupLine cmosConsoleSetting).length < BOOTORDER_SIZE ∧
      m (cbfsSubheader m cbfsFile + k) = 0 := by
  obtain ⟨htext, hsearch, _, _, hinside, _⟩ := h
  obtain ⟨hend, _⟩ := Mem.strlen_eq_some htext
  obtain ⟨hfoundZero, _⟩ := Mem.strlen_eq_some hsearch
  by_contra hnone
  -- the place where the end was found is in the middle of the text
  have hlong : BOOTORDER_SIZE ≤ length + (setupLine cmosConsoleSetting).length := by
    by_contra hshort
    exact hnone ⟨length, by omega, hend⟩
  have hcopied : found < copyLength length := by
    rcases copyLength_cases length with hcopy | ⟨hcopy, _⟩ <;> omega
  rw [memcpy_buffer hapart (by omega) hcopied] at hfoundZero
  exact hnone ⟨found, hinside, hfoundZero⟩

/-- For every content of the file and both values of the setting, the text with the line is in
the buffer and the buffer is not left, if and only if the text ends so early that the line and a
zero byte still fit. -/
theorem appends_iff (m : Mem) (c : BootorderContainer) (cbfsFile dataBuf cmosConsoleSetting : ℕ)
    (hfile : cbfsFile ≠ 0) (hfresh : ∀ i < BOOTORDER_SIZE, m (dataBuf + i) = 0)
    (hapart : cbfsSubheader m cbfsFile + BOOTORDER_SIZE ≤ dataBuf ∨
      dataBuf + BOOTORDER_SIZE ≤ cbfsSubheader m cbfsFile) :
    (∃ fuel length found m',
        Appends m c cbfsFile dataBuf cmosConsoleSetting fuel length found m') ↔
      ∃ k, k + (setupLine cmosConsoleSetting).length < BOOTORDER_SIZE ∧
        m (cbfsSubheader m cbfsFile + k) = 0 := by
  obtain ⟨data, hdata⟩ : ∃ data, data = cbfsSubheader m cbfsFile := ⟨_, rfl⟩
  rw [← hdata] at hapart ⊢
  constructor
  · rintro ⟨fuel, length, found, m', h⟩
    rw [hdata] at hapart ⊢
    exact h.exists_end hapart
  · rintro ⟨k, hk, hzero⟩
    have hexists : ∃ k, m (data + k) = 0 := ⟨k, hzero⟩
    obtain ⟨length, hlength⟩ : ∃ length, length = Nat.find hexists := ⟨_, rfl⟩
    have hend : m (data + length) = 0 := hlength ▸ Nat.find_spec hexists
    have hchars : ∀ i < length, m (data + i) ≠ 0 := fun i hi =>
      Nat.find_min hexists (hlength ▸ hi)
    have hle : length ≤ k := hlength ▸ Nat.find_min' hexists hzero
    have hcopy : copyLength length = length := by
      rcases copyLength_cases length with hcopy | ⟨_, hlong⟩
      · exact hcopy
      · omega
    have htext : m.strlen BOOTORDER_SIZE data = some length :=
      Mem.strlen_of_first hend hchars (by omega)
    have hsearch : (m.memcpy dataBuf data (copyLength length)).strlen BOOTORDER_SIZE dataBuf =
        some length := by
      rw [hcopy]
      refine Mem.strlen_of_first ?_ (fun i hi => ?_) (by omega)
      · rw [Mem.memcpy_frame (by omega)]
        exact hfresh length (by omega)
      · rw [memcpy_buffer hapart (by omega) hi]
        exact hchars i hi
    rw [hdata] at htext hsearch
    obtain ⟨c', hresult⟩ := getMainboardBootorderTable_eq c cmosConsoleSetting hfile
      htext hsearch
    refine ⟨BOOTORDER_SIZE, length, length, _, htext, hsearch, ⟨c', hresult⟩, ?_, by omega, ?_⟩
    · rw [← hdata, Mem.holds_append, Mem.holds_append, Mem.length_slice, hcopy]
      refine ⟨Mem.holds_slice fun i hi => ?_, ?_, ?_, trivial⟩
      · rw [Function.update_of_ne (by omega), Mem.writeBytes_frame (by omega)]
        exact memcpy_buffer hapart (by omega) hi
      · have hline : ((m.memcpy dataBuf data length).writeBytes (dataBuf + length)
            (setupLine cmosConsoleSetting)).Holds (dataBuf + length) (setupLine cmosConsoleSetting) :=
          Mem.holds_writeBytes
        exact hline.congr fun a _ ha => Function.update_of_ne (by omega) _ _
      · rw [Function.update_self]
    · intro a ha
      rw [Function.update_of_ne (by omega), Mem.writeBytes_frame (by omega),
        Mem.memcpy_frame (by omega)]

/-- A record at 0x20 whose data, at 0x40, is a text of 4080 characters. -/
def longText : Mem := fun a =>
  if a = 0x20 + 23 then 0x20
  else if 0x40 ≤ a ∧ a < 0x40 + 4080 then 0x2f
  else 0

/-- Such a text leaves no room for the line with its mark. -/
theorem not_appends_long :
    ¬ ∃ fuel length found m', Appends longText
      ⟨0, 0, ⟨List.replicate 16 0, rfl⟩⟩ 0x20 0x100000 0 fuel length found m' := by
  rintro ⟨fuel, length, found, m', h⟩
  have hdata : cbfsSubheader longText 0x20 = 0x40 := by decide
  obtain ⟨k, hk, hzero⟩ := h.exists_end (Or.inl (by rw [hdata]; decide))
  have hline : (setupLine 0).length = 16 := rfl
  rw [hline, BOOTORDER_SIZE] at hk
  have hchar : longText (0x40 + k) = 0x2f := by
    rw [longText, if_neg (by omega), if_pos ⟨by omega, by omega⟩]
  rw [hdata, hchar] at hzero
  exact absurd hzero (by decide)

/-- An empty text, with the setup enabled. -/
theorem appends_iff_empty :
    ∃ fuel length found m', Appends (fun a => if a = 0x20 + 23 then 0x20 else 0)
      ⟨0, 0, ⟨List.replicate 16 0, rfl⟩⟩ 0x20 0x100000 1 fuel length found m' :=
  (appends_iff _ ⟨0, 0, ⟨List.replicate 16 0, rfl⟩⟩ 0x20 0x100000 1 (by decide)
    (fun i _ => if_neg (by omega)) (Or.inl (by decide))).2 ⟨0, by decide, by decide⟩

end ApuBios.BootOrder
