import ApuBios.Libpayload.Libc.IpChecksum

/-!
# What a payload knows of the system

Model of `arch/x86/coreboot.c`: the coreboot table is looked for in low memory, forwarders are
followed, and the records that the payload cares about are remembered. Most of them are remembered
by where they are.
-/

namespace ApuBios.Sysinfo

open Mem CorebootTable

variable (m : Mem)

/-- The options of the payload that its parser depends on. -/
structure Config where
  memmapRamOnly : Bool
  nvram : Bool
  corebootVideoConsole : Bool

/-- `struct memrange` -/
structure Memrange where
  base : ℕ
  size : ℕ
  type : ℕ
  deriving DecidableEq

/-- `struct sysinfo_t`; the first `n_memranges` of the ranges are listed, and pointers are
addresses. -/
structure SysInfo where
  serial : ℕ := 0
  memrange : List Memrange := []
  optionTable : ℕ := 0
  cmosRangeStart : ℕ := 0
  cmosRangeEnd : ℕ := 0
  cmosChecksumLocation : ℕ := 0
  extraVersion : ℕ := 0
  build : ℕ := 0
  compileTime : ℕ := 0
  compileBy : ℕ := 0
  compileHost : ℕ := 0
  compileDomain : ℕ := 0
  compiler : ℕ := 0
  linker : ℕ := 0
  assembler : ℕ := 0
  cbVersion : ℕ := 0
  framebuffer : ℕ := 0
  header : ℕ := 0
  mainboard : ℕ := 0
  x86RomVarMtrrIndex : ℤ := 0
  tstampTable : ℕ := 0
  cbmemCons : ℕ := 0
  mrcCache : ℕ := 0
  acpiGnvs : ℕ := 0
  deriving DecidableEq

def SYSINFO_MAX_MEM_RANGES : ℕ := 32

def CB_MEM_RAM : ℕ := 1

def CB_TAG_MEMORY : ℕ := 0x0001
def CB_TAG_MAINBOARD : ℕ := 0x0003
def CB_TAG_VERSION : ℕ := 0x0004
def CB_TAG_EXTRA_VERSION : ℕ := 0x0005
def CB_TAG_BUILD : ℕ := 0x0006
def CB_TAG_COMPILE_TIME : ℕ := 0x0007
def CB_TAG_COMPILE_BY : ℕ := 0x0008
def CB_TAG_COMPILE_HOST : ℕ := 0x0009
def CB_TAG_COMPILE_DOMAIN : ℕ := 0x000a
def CB_TAG_COMPILER : ℕ := 0x000b
def CB_TAG_LINKER : ℕ := 0x000c
def CB_TAG_ASSEMBLER : ℕ := 0x000d
def CB_TAG_SERIAL : ℕ := 0x000f
def CB_TAG_FORWARD : ℕ := 0x0011
def CB_TAG_FRAMEBUFFER : ℕ := 0x0012
def CB_TAG_TIMESTAMPS : ℕ := 0x0016
def CB_TAG_CBMEM_CONSOLE : ℕ := 0x0017
def CB_TAG_MRC_CACHE : ℕ := 0x0018
def CB_TAG_X86_ROM_MTRR : ℕ := 0x0021
def CB_TAG_ACPI_GNVS : ℕ := 0x0024
def CB_TAG_CMOS_OPTION_TABLE : ℕ := 0x00c8
def CB_TAG_OPTION_CHECKSUM : ℕ := 0x00cc

/-! ### Records -/

def recordTag (ptr : ℕ) : ℕ := readLE m ptr 4

/-- `struct cb_memory` and `struct cb_memory_range` -/
def memRangeCount (mem : ℕ) : ℕ := Word.sub 32 (recordSize m mem) 8 / 20

def memRangePtr (mem idx : ℕ) : ℕ := mem + 8 + 20 * idx

def cbUnpack64 (ptr : ℕ) : ℕ := (readLE m (ptr + 4) 4 <<< 32) ||| readLE m ptr 4

/-- One turn of the loop in `cb_parse_memory`. -/
def memrangeOf (config : Config) (range : ℕ) : Option Memrange :=
  if config.memmapRamOnly ∧ readLE m (range + 16) 4 ≠ CB_MEM_RAM then none
  else some ⟨cbUnpack64 m range, cbUnpack64 m (range + 8), readLE m (range + 16) 4⟩

def cbParseMemory (config : Config) (ptr : ℕ) (info : SysInfo) : SysInfo :=
  let count := min (memRangeCount m ptr) SYSINFO_MAX_MEM_RANGES
  { info with memrange := (List.range count).filterMap fun i => memrangeOf m config (memRangePtr ptr i) }

/-- `phys_to_virt(cbmem->cbmem_tab)` -/
def cbmemTab (ptr : ℕ) : ℕ := readLE m (ptr + 8) 8 % 2 ^ 32

def cbParseTstamp (ptr : ℕ) (info : SysInfo) : SysInfo := { info with tstampTable := cbmemTab m ptr }

def cbParseChecksum (ptr : ℕ) (info : SysInfo) : SysInfo :=
  { info with
    cmosRangeStart := readLE m (ptr + 8) 4
    cmosRangeEnd := readLE m (ptr + 12) 4
    cmosChecksumLocation := readLE m (ptr + 16) 4 }

def cbParseX86RomVarMtrr (ptr : ℕ) (info : SysInfo) : SysInfo :=
  { info with x86RomVarMtrrIndex := (BitVec.ofNat 32 (readLE m (ptr + 8) 4)).toInt }

/-- The pointer that `cb_parse_string` stores. -/
def cbString (ptr : ℕ) : ℕ := ptr + 8

/-- The strings of a `struct cb_mainboard`. -/
def cbMbVendorString (cbm : ℕ) : ℕ := cbm + 10 + (m (cbm + 8)).toNat

def cbMbPartString (cbm : ℕ) : ℕ := cbm + 10 + (m (cbm + 9)).toNat

/-- The `switch` of `cb_parse_header`, without the forwarder. -/
def cbParseRecord (config : Config) (ptr : ℕ) (info : SysInfo) : SysInfo :=
  let tag := recordTag m ptr
  if tag = CB_TAG_MEMORY then cbParseMemory m config ptr info
  else if tag = CB_TAG_SERIAL then { info with serial := ptr }
  else if tag = CB_TAG_VERSION then { info with cbVersion := cbString ptr }
  else if tag = CB_TAG_EXTRA_VERSION then { info with extraVersion := cbString ptr }
  else if tag = CB_TAG_BUILD then { info with build := cbString ptr }
  else if tag = CB_TAG_COMPILE_TIME then { info with compileTime := cbString ptr }
  else if tag = CB_TAG_COMPILE_BY then { info with compileBy := cbString ptr }
  else if tag = CB_TAG_COMPILE_HOST then { info with compileHost := cbString ptr }
  else if tag = CB_TAG_COMPILE_DOMAIN then { info with compileDomain := cbString ptr }
  else if tag = CB_TAG_COMPILER then { info with compiler := cbString ptr }
  else if tag = CB_TAG_LINKER then { info with linker := cbString ptr }
  else if tag = CB_TAG_ASSEMBLER then { info with assembler := cbString ptr }
  else if config.nvram ∧ tag = CB_TAG_CMOS_OPTION_TABLE then { info with optionTable := ptr }
  else if config.nvram ∧ tag = CB_TAG_OPTION_CHECKSUM then cbParseChecksum m ptr info
  else if config.corebootVideoConsole ∧ tag = CB_TAG_FRAMEBUFFER then { info with framebuffer := ptr }
  -- there is no `break` behind the mainboard
  else if tag = CB_TAG_MAINBOARD then cbParseTstamp m ptr { info with mainboard := ptr }
  else if tag = CB_TAG_TIMESTAMPS then cbParseTstamp m ptr info
  else if tag = CB_TAG_CBMEM_CONSOLE then { info with cbmemCons := cbmemTab m ptr }
  else if tag = CB_TAG_MRC_CACHE then { info with mrcCache := cbmemTab m ptr }
  else if tag = CB_TAG_ACPI_GNVS then { info with acpiGnvs := cbmemTab m ptr }
  else if tag = CB_TAG_X86_ROM_MTRR then cbParseX86RomVarMtrr m ptr info
  else info

/-! ### The table -/

/-- The signature is "LBIO". -/
def hasSignature (ptr : ℕ) : Bool :=
  [m ptr, m (ptr + 1), m (ptr + 2), m (ptr + 3)] == [0x4c, 0x42, 0x49, 0x4f]

/-- The first loop of `cb_parse_header`, with the turns that are left. -/
def findHeader (ptr : ℕ) : ℕ → Option ℕ
  | 0 => none
  | n + 1 => if hasSignature m ptr then some ptr else findHeader (ptr + 16) n

/-- The member `header_bytes`. -/
def headerBytes (header : ℕ) : ℕ := readLE m (header + 4) 4

/-- The loop over the records; a forwarder ends it. -/
def parseRecords (config : Config) (forward : ℕ → SysInfo → Option (ℤ × SysInfo)) :
    (entries ptr : ℕ) → SysInfo → Option (ℤ × SysInfo)
  | 0, _, info => some (1, info)
  | n + 1, ptr, info =>
    if recordTag m ptr = CB_TAG_FORWARD then forward (readLE m (ptr + 8) 8 % 2 ^ 32) info
    else parseRecords config forward n (ptr + recordSize m ptr) (cbParseRecord m config ptr info)

/-- The first argument bounds the forwarders that are followed. -/
def cbParseHeader (config : Config) : ℕ → (addr len : ℕ) → SysInfo → Option (ℤ × SysInfo)
  | 0, _, _, _ => none
  | fuel + 1, addr, len, info =>
    match findHeader m addr ((len + 15) / 16) with
    | none => some (-1, info)
    | some header =>
      if tableBytes m header = 0 then some (0, info)
      else if ¬ Libc.checksumsMatch m header then some (-1, info)
      else parseRecords m config (fun forward => cbParseHeader config fuel forward len)
        (tableEntries m header) (header + headerBytes m header) { info with header := header }

def getCorebootInfo (config : Config) (fuel : ℕ) (info : SysInfo) : Option (ℤ × SysInfo) := do
  let info := { info with x86RomVarMtrrIndex := -1 }
  let (ret, info) ← cbParseHeader m config fuel 0x00000000 0x1000 info
  let (ret, info) ←
    if ret ≠ 1 then cbParseHeader m config fuel 0x000f0000 0x1000 info else some (ret, info)
  some (if ret = 1 then 0 else -1, info)

end ApuBios.Sysinfo
