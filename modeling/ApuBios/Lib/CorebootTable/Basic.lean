import ApuBios.Library.Checksum
import ApuBios.Library.Word

/-!
# The coreboot table

Model of `lib/coreboot_table.c` and `lib/compute_ip_checksum.c`: a header, records behind it, and
two checksums. A caller that adds a record is what it stores through the pointer that
`lb_new_record` returns.
-/

namespace ApuBios.CorebootTable

open Mem

variable (m : Mem)

/-! ### Structures -/

/-- `struct lb_header` -/
def sizeOfHeader : ℕ := 24

/-- `struct lb_record` -/
def sizeOfRecord : ℕ := 8

def LB_TAG_UNUSED : ℕ := 0x0000
def LB_TAG_MEMORY : ℕ := 0x0001
def LB_TAG_MAINBOARD : ℕ := 0x0003
def LB_TAG_VERSION : ℕ := 0x0004
def LB_TAG_EXTRA_VERSION : ℕ := 0x0005
def LB_TAG_BUILD : ℕ := 0x0006
def LB_TAG_COMPILE_TIME : ℕ := 0x0007
def LB_TAG_COMPILE_BY : ℕ := 0x0008
def LB_TAG_COMPILE_HOST : ℕ := 0x0009
def LB_TAG_COMPILE_DOMAIN : ℕ := 0x000a
def LB_TAG_SERIAL : ℕ := 0x000f
def LB_TAG_CONSOLE : ℕ := 0x0010
def LB_TAG_FORWARD : ℕ := 0x0011
def LB_TAG_TIMESTAMPS : ℕ := 0x0016
def LB_TAG_CBMEM_CONSOLE : ℕ := 0x0017
def LB_TAG_ACPI_GNVS : ℕ := 0x0024
def LB_TAG_CMOS_OPTION_TABLE : ℕ := 200

def tableBytes (header : ℕ) : ℕ := readLE m (header + 12) 4
def tableChecksum (header : ℕ) : ℕ := readLE m (header + 16) 4
def tableEntries (header : ℕ) : ℕ := readLE m (header + 20) 4

/-- The member `size` of a record. -/
def recordSize (record : ℕ) : ℕ := readLE m (record + 4) 4

def setTag (record tag : ℕ) : Mem := writeLE m record 4 tag
def setSize (record size : ℕ) : Mem := writeLE m (record + 4) 4 size

/-! ### Checksums -/

/-- The values that are added for the bytes: every second one is the upper half of a word. -/
def ipWeight (i : ℕ) : ℕ := if i % 2 = 1 then 2 ^ 8 else 1

/-- The word is the sum, byte by byte. -/
def computeIpChecksum (addr length : ℕ) : ℕ :=
  let sum := (List.range length).foldl
    (fun sum i => Checksum.addCarry sum (ipWeight i * (m (addr + i)).toNat)) 0
  0xffff - (sum % 256 + 256 * (sum / 256 % 256))

/-! ### The table -/

def lbTableInit (addr : ℕ) : Mem × ℕ :=
  let header := Word.alignUp 32 addr 16
  let m := writeBytes m header [0x4c, 0x42, 0x49, 0x4f]
  let m := writeLE m (header + 4) 4 sizeOfHeader
  let m := writeLE m (header + 8) 4 0
  let m := writeLE m (header + 12) 4 0
  let m := writeLE m (header + 16) 4 0
  let m := writeLE m (header + 20) 4 0
  (m, header)

def lbFirstRecord (header : ℕ) : ℕ := header + sizeOfHeader

def lbLastRecord (header : ℕ) : ℕ := header + sizeOfHeader + tableBytes m header

/-- `header->table_bytes += rec->size`, if there is a record. -/
def countLast (header : ℕ) : Mem :=
  if tableEntries m header ≠ 0 then
    writeLE m (header + 12) 4
      (Word.add 32 (tableBytes m header) (recordSize m (lbLastRecord m header)))
  else
    m

def lbNewRecord (header : ℕ) : Mem × ℕ :=
  let m := countLast m header
  let record := lbLastRecord m header
  let m := writeLE m (header + 20) 4 (Word.add 32 (tableEntries m header) 1)
  let m := setTag m record LB_TAG_UNUSED
  let m := setSize m record sizeOfRecord
  (m, record)

def lbTableFini (head : ℕ) : Mem :=
  let m := countLast m head
  let m := writeLE m (head + 16) 4
    (computeIpChecksum m (lbFirstRecord head) (tableBytes m head))
  let m := writeLE m (head + 8) 4 0
  writeLE m (head + 8) 4 (computeIpChecksum m head sizeOfHeader)

/-! ### Additions -/

/-- What a caller stores into a new record: its size and other members, inside the record. -/
structure Addition where
  write : Mem → ℕ → Mem
  size : ℕ
  sizeOfRecord_le : sizeOfRecord ≤ size
  size_eq (m : Mem) (record : ℕ) : recordSize (write m record) record = size
  frame (m : Mem) (record a : ℕ) : a < record ∨ record + size ≤ a → write m record a = m a

/-- A record is added. -/
def add (header : ℕ) (a : Addition) : Mem :=
  let r := lbNewRecord m header
  a.write r.1 r.2

/-- The table after additions to a new one. -/
def build (addr : ℕ) (additions : List Addition) : Mem :=
  let t := lbTableInit m addr
  additions.foldl (fun m a => add m t.2 a) t.1

end ApuBios.CorebootTable
