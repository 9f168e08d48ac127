import ApuBios.Lib.CorebootTable.Basic

/-!
# The records of the coreboot table

The functions that add records, each with the size that it stores and the members that it fills.
-/

namespace ApuBios.CorebootTable

open Mem

variable {m : Mem} {record tag size start lbR : ℕ} {body : Mem → ℕ → Mem} {bytes : List UInt8}
  {ranges : List (ℕ × ℕ × ℕ)}

/-- The members behind the size are stored inside the record. -/
def Inside (body : Mem → ℕ → Mem) (size : ℕ) : Prop :=
  ∀ m record a, a < record + sizeOfRecord ∨ record + size ≤ a → body m record a = m a

/-- A record with a tag, a size that is known from the start, and other members. -/
def fixedRecord (tag size : ℕ) (body : Mem → ℕ → Mem) (hle : sizeOfRecord ≤ size)
    (hlt : size < 2 ^ 32) (hbody : Inside body size) : Addition where
  write m record := body (setSize (setTag m record tag) record size) record
  size := size
  sizeOfRecord_le := hle
  size_eq m record := by
    have hrecord : sizeOfRecord = 8 := rfl
    rw [recordSize, readLE_congr fun a _ ha => hbody _ _ a (Or.inl (by omega))]
    exact readLE_writeLE hlt
  frame m record a h := by
    have hrecord : sizeOfRecord = 8 := rfl
    rw [hbody _ _ a (by omega), setSize, writeLE_frame (by omega), setTag,
      writeLE_frame (by omega)]

/-! ### Memory -/

/-- The loop in `bootmem_write_memory_table`. -/
def writeRanges (m : Mem) (mem lbR : ℕ) : List (ℕ × ℕ × ℕ) → Mem
  | [] => m
  | (start, size, type) :: ranges =>
    let m := writeLE m lbR 8 start
    let m := writeLE m (lbR + 8) 8 size
    let m := writeLE m (lbR + 16) 4 type
    let m := setSize m mem (Word.add 32 (recordSize m mem) 20)
    writeRanges m mem (lbR + 20) ranges

lemma writeRanges_frame {a : ℕ} (h : a < record + 4 ∨ record + 8 ≤ a)
    (h' : a < lbR ∨ lbR + 20 * ranges.length ≤ a) : writeRanges m record lbR ranges a = m a := by
  induction ranges generalizing m lbR with
  | nil => rfl
  | cons r ranges ih =>
    rw [List.length_cons] at h'
    rw [writeRanges, ih (by omega), setSize, writeLE_frame (by omega), writeLE_frame (by omega),
      writeLE_frame (by omega), writeLE_frame (by omega)]

lemma recordSize_writeRanges (hlbR : record + 8 ≤ lbR)
    (hsize : recordSize m record + 20 * ranges.length < 2 ^ 32) :
    recordSize (writeRanges m record lbR ranges) record =
      recordSize m record + 20 * ranges.length := by
  induction ranges generalizing m lbR with
  | nil => rfl
  | cons r ranges ih =>
    rw [List.length_cons] at hsize ⊢
    have hkept : recordSize (writeLE (writeLE (writeLE m lbR 8 r.1) (lbR + 8) 8 r.2.1) (lbR + 16) 4
        r.2.2) record = recordSize m record := by
      rw [recordSize, readLE_writeLE_disjoint (by omega), readLE_writeLE_disjoint (by omega),
        readLE_writeLE_disjoint (by omega)]
      rfl
    have hnext : ∀ m' : Mem, recordSize (setSize m' record (recordSize m record + 20)) record =
        recordSize m record + 20 := fun m' => readLE_writeLE (by omega)
    rw [writeRanges, hkept, Word.add_eq (by omega), ih (by omega) (by rw [hnext]; omega), hnext]
    omega

/-- `bootmem_write_memory_table(lb_memory(header))` -/
def lbMemory (ranges : List (ℕ × ℕ × ℕ)) (h : 8 + 20 * ranges.length < 2 ^ 32) : Addition where
  write m mem :=
    writeRanges (setSize (setTag m mem LB_TAG_MEMORY) mem sizeOfRecord) mem (mem + 8) ranges
  size := sizeOfRecord + 20 * ranges.length
  sizeOfRecord_le := Nat.le_add_right _ _
  size_eq m mem := by
    have hrecord : sizeOfRecord = 8 := rfl
    have hsize : recordSize (setSize (setTag m mem LB_TAG_MEMORY) mem sizeOfRecord) mem =
        sizeOfRecord := readLE_writeLE (by decide)
    rw [recordSize_writeRanges le_rfl (by rw [hsize, hrecord]; exact h), hsize]
  frame m mem a ha := by
    have hrecord : sizeOfRecord = 8 := rfl
    rw [writeRanges_frame (by omega) (by omega), setSize, writeLE_frame (by omega), setTag,
      writeLE_frame (by omega)]

/-! ### Strings -/

/-- A string with its terminator. -/
def cString (s : List UInt8) : List UInt8 := s ++ [0]

lemma length_cString (s : List UInt8) : (cString s).length = s.length + 1 := List.length_append

/-- Sizes are rounded up to words. -/
def roundedSize (n : ℕ) : ℕ := Word.alignUp 32 n 4

lemma roundedSize_bounds {n : ℕ} (h : n + 3 < 2 ^ 32) :
    n ≤ roundedSize n ∧ roundedSize n < 2 ^ 32 := by
  have hlt : Word.roundUp n 2 < n + 2 ^ 2 := Word.roundUp_lt
  have heq : roundedSize n = Word.roundUp n 2 :=
    Word.alignUp_eq (w := 32) (k := 2) (by decide) (by omega)
  rw [heq]
  exact ⟨Word.le_roundUp, by omega⟩

/-- One of the strings of `lb_strings`. -/
def lbString (tag : ℕ) (string : List UInt8) (h : string.length + 12 < 2 ^ 32) : Addition :=
  fixedRecord tag (roundedSize (8 + string.length + 1))
    (fun m record => writeBytes m (record + 8) (cString string))
    (by have := (roundedSize_bounds (n := 8 + string.length + 1) (by omega)).1
        exact le_trans (by rw [sizeOfRecord]; omega) this)
    (roundedSize_bounds (by omega)).2 (fun m record a ha => by
      have := (roundedSize_bounds (n := 8 + string.length + 1) (by omega)).1
      have := length_cString string
      have : sizeOfRecord = 8 := rfl
      exact writeBytes_frame (by omega))

/-- `lb_mainboard`; the index of the second string is a byte. -/
def lbMainboard (vendor partNumber : List UInt8)
    (h : vendor.length + partNumber.length + 17 < 2 ^ 32) : Addition :=
  fixedRecord LB_TAG_MAINBOARD
    (roundedSize (12 + vendor.length + 1 + partNumber.length + 1))
    (fun m record =>
      let partNumberIdx := (vendor.length + 1) % 2 ^ 8
      let m := writeLE m (record + 8) 1 0
      let m := writeLE m (record + 9) 1 partNumberIdx
      let m := writeBytes m (record + 10) (cString vendor)
      writeBytes m (record + 10 + partNumberIdx) (cString partNumber))
    (by have := (roundedSize_bounds
          (n := 12 + vendor.length + 1 + partNumber.length + 1) (by omega)).1
        exact le_trans (by rw [sizeOfRecord]; omega) this)
    (roundedSize_bounds (by omega)).2 (fun m record a ha => by
      have := (roundedSize_bounds
        (n := 12 + vendor.length + 1 + partNumber.length + 1) (by omega)).1
      have := length_cString vendor
      have := length_cString partNumber
      have : sizeOfRecord = 8 := rfl
      dsimp only
      rw [writeBytes_frame (by omega), writeBytes_frame (by omega), writeLE_frame (by omega),
        writeLE_frame (by omega)])

/-! ### Other records -/

lemma inside_writeLE (n k v : ℕ) (hn : sizeOfRecord ≤ n) (hk : n + k ≤ size) :
    Inside (fun m record => writeLE m (record + n) k v) size :=
  fun _ _ _ _ => writeLE_frame (by omega)

lemma Inside.comp {body' : Mem → ℕ → Mem} (h : Inside body size) (h' : Inside body' size) :
    Inside (fun m record => body' (body m record) record) size :=
  fun _ _ a ha => (h' _ _ a ha).trans (h _ _ a ha)

/-- `lb_add_serial` -/
def lbAddSerial (type baseaddr baud : ℕ) : Addition :=
  fixedRecord LB_TAG_SERIAL 20
    (fun m record =>
      let m := writeLE m (record + 8) 4 type
      let m := writeLE m (record + 12) 4 baseaddr
      writeLE m (record + 16) 4 baud)
    (by decide) (by decide)
    (((inside_writeLE 8 4 type (by decide) (by decide)).comp
      (inside_writeLE 12 4 baseaddr (by decide) (by decide))).comp
        (inside_writeLE 16 4 baud (by decide) (by decide)))

/-- `lb_add_console` -/
def lbAddConsole (consoletype : ℕ) : Addition :=
  fixedRecord LB_TAG_CONSOLE 12 (fun m record => writeLE m (record + 8) 2 consoletype)
    (by decide) (by decide) (inside_writeLE 8 2 consoletype (by decide) (by decide))

/-- `lb_forward` -/
def lbForward (nextHeader : ℕ) : Addition :=
  fixedRecord LB_TAG_FORWARD 16 (fun m record => writeLE m (record + 8) 8 nextHeader)
    (by decide) (by decide) (inside_writeLE 8 8 nextHeader (by decide) (by decide))

/-- One of the references of `add_cbmem_pointers`. -/
def cbmemRef (tableTag cbmemAddr : ℕ) : Addition :=
  fixedRecord tableTag 16 (fun m record => writeLE m (record + 8) 8 cbmemAddr)
    (by decide) (by decide) (inside_writeLE 8 8 cbmemAddr (by decide) (by decide))

/-- The option table is a record already, and is copied. -/
def optionTable (bytes : List UInt8) (hle : sizeOfRecord ≤ bytes.length)
    (hsize : recordSize (writeBytes (fun _ => 0) 0 bytes) 0 = bytes.length) : Addition where
  write m record := writeBytes m record bytes
  size := bytes.length
  sizeOfRecord_le := hle
  size_eq m record := by
    have hrecord : sizeOfRecord = 8 := rfl
    rw [← hsize]
    refine readLE_shift fun i hi => ?_
    rw [Nat.add_assoc, Nat.add_assoc, writeBytes_read (by omega), writeBytes_read (by omega)]
  frame m record a ha := writeBytes_frame ha

/-! ### The whole table -/

/-- What `write_coreboot_table` puts into the table: the memory map, the name of the mainboard, the
consoles, the strings of the build, and where the sections of CBMEM are. -/
structure Board where
  optionTable : Option (List UInt8)
  ranges : List (ℕ × ℕ × ℕ)
  vendor : List UInt8
  partNumber : List UInt8
  /-- the type, the address and the rate -/
  serial : Option (ℕ × ℕ × ℕ)
  consoleUsb : Bool
  version : List UInt8
  extraVersion : List UInt8
  build : List UInt8
  compileTime : List UInt8
  compileBy : List UInt8
  compileHost : List UInt8
  compileDomain : List UInt8
  timestamps : Option ℕ
  console : Option ℕ
  acpiGnvs : Option ℕ
  isRecord : ∀ bytes ∈ optionTable, sizeOfRecord ≤ bytes.length ∧
    recordSize (writeBytes (fun _ => 0) 0 bytes) 0 = bytes.length
  isOptionTable : ∀ bytes ∈ optionTable,
    readLE (writeBytes (fun _ => 0) 0 bytes) 0 4 = LB_TAG_CMOS_OPTION_TABLE
  fewRanges : 8 + 20 * ranges.length < 2 ^ 32
  packed : ∀ r ∈ ranges, r.1 < 2 ^ 64 ∧ r.2.1 < 2 ^ 64 ∧ r.2.2 < 2 ^ 32
  shortNames : vendor.length + partNumber.length + 17 < 2 ^ 32
  serialWords : ∀ s ∈ serial, s.1 < 2 ^ 32 ∧ s.2.1 < 2 ^ 32 ∧ s.2.2 < 2 ^ 32
  pointers : ∀ section_ ∈ [timestamps, console, acpiGnvs], ∀ addr ∈ section_, addr < 2 ^ 32
  shortStrings : ∀ s ∈ [version, extraVersion, build, compileTime, compileBy, compileHost,
    compileDomain], s.length + 12 < 2 ^ 32

namespace Board

variable (b : Board)

/-- The copy of the option table. -/
def optionRecords : List Addition :=
  match h : b.optionTable with
  | none => []
  | some bytes => [CorebootTable.optionTable bytes (b.isRecord bytes h).1 (b.isRecord bytes h).2]

/-- `uart_fill_lb` -/
def uartFillLb : List Addition :=
  match b.serial with
  | none => []
  | some (type, baseaddr, baud) => [lbAddSerial type baseaddr baud, lbAddConsole 0]

def lbStrings : List Addition :=
  [lbString LB_TAG_VERSION b.version (b.shortStrings _ (by simp)),
    lbString LB_TAG_EXTRA_VERSION b.extraVersion (b.shortStrings _ (by simp)),
    lbString LB_TAG_BUILD b.build (b.shortStrings _ (by simp)),
    lbString LB_TAG_COMPILE_TIME b.compileTime (b.shortStrings _ (by simp)),
    lbString LB_TAG_COMPILE_BY b.compileBy (b.shortStrings _ (by simp)),
    lbString LB_TAG_COMPILE_HOST b.compileHost (b.shortStrings _ (by simp)),
    lbString LB_TAG_COMPILE_DOMAIN b.compileDomain (b.shortStrings _ (by simp))]

/-- A section that is not present has no record. -/
def cbmemPointer (tableTag : ℕ) (cbmemAddr : Option ℕ) : List Addition :=
  match cbmemAddr with
  | none => []
  | some cbmemAddr => [cbmemRef tableTag cbmemAddr]

def addCbmemPointers : List Addition :=
  cbmemPointer LB_TAG_TIMESTAMPS b.timestamps ++ cbmemPointer LB_TAG_CBMEM_CONSOLE b.console ++
    cbmemPointer LB_TAG_ACPI_GNVS b.acpiGnvs

def additions : List Addition :=
  b.optionRecords ++ [lbMemory b.ranges b.fewRanges] ++
    [CorebootTable.lbMainboard b.vendor b.partNumber b.shortNames] ++ b.uartFillLb ++
    (if b.consoleUsb then [lbAddConsole 5] else []) ++ b.lbStrings ++ b.addCbmemPointers

end Board

/-- A table with some records, from its start to its end. -/
def writeTable (m : Mem) (addr : ℕ) (additions : List Addition) : Mem :=
  lbTableFini (build m addr additions) (lbTableInit m addr).2

/-- The forwarder is put where low tables are, and the table itself behind the other ones. -/
def writeCorebootTable (m : Mem) (lowTableStart lowTableEnd romTableEnd : ℕ) (b : Board) : Mem :=
  let m :=
    if lowTableStart ≠ 0 ∨ lowTableEnd ≠ 0 then writeTable m lowTableEnd [lbForward romTableEnd]
    else m
  writeTable m romTableEnd b.additions

end ApuBios.CorebootTable
