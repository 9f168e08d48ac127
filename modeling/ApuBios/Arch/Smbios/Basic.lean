import ApuBios.Library.CString
import ApuBios.Library.Word

/-!
# The SMBIOS tables

Model of `arch/x86/boot/smbios.c`: structures that consist of a formatted area and a set of strings
are written one after the other, and the entry point says where they lie and how many there are.
-/

namespace ApuBios.Smbios

open Mem

/-! ### String sets -/

/-- The loop of `smbios_add_string`. -/
def addStringLoop (str : CString) : ℕ → Mem → ℕ → ℕ → Option (Mem × ℕ)
  | 0, _, _, _ => none
  | fuel + 1, m, p, i =>
    if m p = 0 then
      let m := strcpy m p str
      let m := Function.update m (p + str.1.length) 0
      some (Function.update m (p + str.1.length + 1) 0, i)
    else if strcmp m p str.1 = 0 then
      some (m, i)
    else do
      let n ← strlen m fuel p
      addStringLoop str fuel m (p + n + 1) (i + 1)

/-- The number of the string in the set; the empty string has the number 0. -/
def smbiosAddString (fuel : ℕ) (m : Mem) (start : ℕ) (str : CString) : Option (Mem × ℕ) :=
  if str.1 = [] then some (m, 0) else addStringLoop str fuel m start 1

/-- The loop of `smbios_string_table_len`. -/
def stringTableLenLoop (m : Mem) : ℕ → ℕ → ℕ → Option ℕ
  | 0, _, _ => none
  | fuel + 1, p, len =>
    if m p = 0 then some len
    else do
      let i ← (strlen m fuel p).map (· + 1)
      stringTableLenLoop m fuel (p + i) (len + i)

def smbiosStringTableLen (fuel : ℕ) (m : Mem) (start : ℕ) : Option ℕ :=
  (stringTableLenLoop m fuel start 0).map (· + 1)

/-! ### Structures -/

def SMBIOS_BIOS_INFORMATION : ℕ := 0
def SMBIOS_SYSTEM_INFORMATION : ℕ := 1
def SMBIOS_BOARD_INFORMATION : ℕ := 2
def SMBIOS_SYSTEM_ENCLOSURE : ℕ := 3
def SMBIOS_PROCESSOR_INFORMATION : ℕ := 4
def SMBIOS_OEM_STRINGS : ℕ := 11
def SMBIOS_SYSTEM_BOOT_INFORMATION : ℕ := 32
def SMBIOS_ONBOARD_DEVICES_EXTENDED_INFORMATION : ℕ := 41
def SMBIOS_END_OF_TABLE : ℕ := 127

/-- An assignment to a member of a structure: of a value, or of the number of a string. -/
inductive Member
  | value (offset width v : ℕ)
  | string (offset : ℕ) (s : CString)

/-- A structure whose strings are added to its string set: the size of the structure in memory
includes the two bytes `eos` behind the formatted area. -/
structure Definition where
  type : ℕ
  size : ℕ
  members : List Member

def writeMember (fuel t size : ℕ) (m : Mem) : Member → Option Mem
  | .value offset width v => some (writeLE m (t + offset) width v)
  | .string offset s => do
    let (m, i) ← smbiosAddString fuel m (t + size - 2) s
    some (writeLE m (t + offset) 1 i)

/-- The common course of the functions that write a structure with strings. -/
def writeStructure (fuel : ℕ) (m : Mem) (current handle : ℕ) (d : Definition) :
    Option (Mem × ℕ) := do
  let t := current
  let m := memset m t 0 d.size
  let m := writeLE m t 1 d.type
  let m := writeLE m (t + 2) 2 handle
  let m := writeLE m (t + 1) 1 (d.size - 2)
  let m ← d.members.foldlM (writeMember fuel t d.size) m
  let len ← smbiosStringTableLen fuel m (t + d.size - 2)
  some (m, (m (t + 1)).toNat + len)

/-- The common course of the functions that write a structure without strings. -/
def writePlainStructure (m : Mem) (current handle type size : ℕ) : Mem × ℕ :=
  let t := current
  let m := memset m t 0 size
  let m := writeLE m t 1 type
  let m := writeLE m (t + 2) 2 handle
  (writeLE m (t + 1) 1 (size - 2), size)

structure CpuidResult where
  eax : ℕ
  ebx : ℕ
  ecx : ℕ
  edx : ℕ

/-- What the functions read. -/
structure Config where
  COREBOOT_DMI_DATE : CString
  CONFIG_LOCALVERSION : CString
  COREBOOT_VERSION : CString
  romsize : ℕ
  CONFIG_CARDBUS_PLUGIN_SUPPORT : Bool
  CONFIG_GENERATE_ACPI_TABLES : Bool
  mainboardManufacturer : CString
  mainboardProductName : CString
  mainboardVersion : CString
  mainboardSerialNumber : CString
  mainboardSku : CString
  mainboardUuid : ℕ
  CONFIG_MAINBOARD_SMBIOS_MANUFACTURER : CString
  CONFIG_SMBIOS_SYSTEM_ENCLOSURE_TYPE : ℕ
  cpuHaveCpuid : Bool
  cpuid : ℕ → CpuidResult
  externalClock : ℕ

variable (cfg : Config)

def biosCharacteristics : ℕ :=
  1 <<< 7 ||| (if cfg.CONFIG_CARDBUS_PLUGIN_SUPPORT then 1 <<< 8 else 0) ||| 1 <<< 16 ||| 1 <<< 11

def type0 : Definition where
  type := SMBIOS_BIOS_INFORMATION
  size := 26
  members := [.string 4 (.ofString "coreboot"), .string 8 cfg.COREBOOT_DMI_DATE,
    .string 5 (if cfg.CONFIG_LOCALVERSION.1 ≠ [] then cfg.CONFIG_LOCALVERSION
      else cfg.COREBOOT_VERSION),
    .value 9 1 (Word.sub 32 (cfg.romsize / 65535) 1), .value 20 1 4,
    .value 10 8 (biosCharacteristics cfg),
    .value 18 1 (if cfg.CONFIG_GENERATE_ACPI_TABLES then 1 <<< 0 else 0), .value 19 1 (1 <<< 2)]

def type1 : Definition where
  type := SMBIOS_SYSTEM_INFORMATION
  size := 29
  members := [.string 4 cfg.mainboardManufacturer, .string 5 cfg.mainboardProductName,
    .string 6 cfg.mainboardVersion, .string 7 cfg.mainboardSerialNumber,
    .value 8 16 cfg.mainboardUuid, .string 25 cfg.mainboardSku,
    .string 26 (.ofString "None Provided")]

def type2 : Definition where
  type := SMBIOS_BOARD_INFORMATION
  size := 10
  members := [.string 4 cfg.mainboardManufacturer, .string 5 cfg.mainboardProductName,
    .string 7 cfg.mainboardSerialNumber, .string 6 cfg.mainboardVersion]

def SMBIOS_STATE_SAFE : ℕ := 3

def type3 : Definition where
  type := SMBIOS_SYSTEM_ENCLOSURE
  size := 23
  members := [.string 4 cfg.CONFIG_MAINBOARD_SMBIOS_MANUFACTURER,
    .value 5 1 cfg.CONFIG_SMBIOS_SYSTEM_ENCLOSURE_TYPE, .value 9 1 SMBIOS_STATE_SAFE,
    .value 10 1 SMBIOS_STATE_SAFE, .value 11 1 SMBIOS_STATE_SAFE, .value 12 1 SMBIOS_STATE_SAFE]

/-- The bytes of 32-bit registers in memory. -/
def registerBytes (registers : List ℕ) : List UInt8 :=
  registers.flatMap fun v => (List.range 4).map fun i => UInt8.ofNat (v / 256 ^ i)

def smbiosCpuVendor : CString :=
  if cfg.cpuHaveCpuid then
    let res := cfg.cpuid 0
    .ofBytes (registerBytes [res.ebx, res.edx, res.ecx])
  else .ofString "Unknown"

def smbiosProcessorName : CString :=
  if cfg.cpuHaveCpuid ∧ 0x80000004 ≤ (cfg.cpuid 0x80000000).eax then
    .ofBytes ((List.range 3).flatMap fun i =>
      let res := cfg.cpuid (0x80000002 + i)
      registerBytes [res.eax, res.ebx, res.ecx, res.edx])
  else .ofString "Unknown Processor Name"

def type4 : Definition :=
  let res := if cfg.cpuHaveCpuid then cfg.cpuid 1 else ⟨0, 0x10000, 0, 0⟩
  { type := SMBIOS_PROCESSOR_INFORMATION
    size := 44
    members := [.string 4 (.ofString "P0"), .value 5 1 3,
      .value 6 1 (if 0 < res.eax then 0x0c else 0x6), .string 7 (smbiosCpuVendor cfg),
      .value 8 4 res.eax, .value 12 4 res.edx, .string 16 (smbiosProcessorName cfg),
      .value 24 1 0x41, .value 25 1 0x06, .value 18 2 cfg.externalClock, .value 20 2 1600,
      .value 22 2 1600, .value 35 1 (res.ebx >>> 16 &&& 0xff), .value 26 2 0xffff,
      .value 28 2 0xffff, .value 30 2 0xffff] }

def type11 (oemStrings : List CString) : Definition where
  type := SMBIOS_OEM_STRINGS
  size := 7
  members := oemStrings.map (.string 4)

def SMBIOS_DEVICE_TYPE_OTHER : ℕ := 1

def type41 (name : CString) (inst segment bus device function : ℕ) : Definition where
  type := SMBIOS_ONBOARD_DEVICES_EXTENDED_INFORMATION
  size := 13
  members := [.string 4 name, .value 5 1 (SMBIOS_DEVICE_TYPE_OTHER ||| 1 <<< 7), .value 6 1 inst,
    .value 7 2 segment, .value 9 1 bus, .value 10 1 (function % 8 ||| (device % 32) <<< 3)]

/-! ### The tables -/

/-- A structure that a device contributes, through one of the two functions that `smbios.h` offers
for it. -/
inductive DeviceData
  | oemStrings (strings : List CString)
  | onboardDevice (name : CString) (inst segment bus device function : ℕ)

def DeviceData.definition : DeviceData → Definition
  | .oemStrings strings => type11 strings
  | .onboardDevice name inst segment bus device function =>
    type41 name inst segment bus device function

/-- The variables of `smbios_write_tables`. -/
structure State where
  m : Mem
  current : ℕ
  handle : ℕ
  len : ℕ

/-- One more structure, which gets the next handle. -/
def State.write (fuel : ℕ) (s : State) (d : Definition) : Option State := do
  let (m, len) ← writeStructure fuel s.m s.current s.handle d
  some ⟨m, s.current + len, s.handle + 1, s.len + len⟩

def State.writePlain (s : State) (type size : ℕ) : State :=
  let (m, len) := writePlainStructure s.m s.current s.handle type size
  ⟨m, s.current + len, s.handle + 1, s.len + len⟩

/-- The devices that have the operation `get_smbios_data`, each with what it contributes. -/
abbrev Devices := List (Option (List DeviceData))

def getSmbiosData (fuel : ℕ) (s : State) (data : List DeviceData) : Option State :=
  data.foldlM (fun s d => s.write fuel d.definition) s

def smbiosWalkDeviceTree (fuel : ℕ) (s : State) (devices : Devices) : Option State :=
  devices.foldlM (fun s dev => dev.elim (some s) (getSmbiosData fuel s)) s

def smbiosChecksum (m : Mem) (p length : ℕ) : UInt8 :=
  -(List.range length).foldl (fun ret i => ret + m (p + i)) 0

/-- `struct smbios_entry` -/
def sizeOfEntry : ℕ := 31

/-- The structures of the table; the entry point is not written yet. -/
def writeStructures (fuel : ℕ) (devices : Devices) (m : Mem) (tables : ℕ) : Option State := do
  let s ← State.write fuel ⟨m, tables, 0, 0⟩ (type0 cfg)
  let s ← s.write fuel (type1 cfg)
  let s ← s.write fuel (type2 cfg)
  let s ← s.write fuel (type3 cfg)
  let s ← s.write fuel (type4 cfg)
  let s := s.writePlain SMBIOS_SYSTEM_BOOT_INFORMATION 13
  let s ← smbiosWalkDeviceTree fuel s devices
  some (s.writePlain SMBIOS_END_OF_TABLE 6)

/-- The entry point at `se`. -/
def writeEntry (m : Mem) (se handle tables len : ℕ) : Mem :=
  let m := memset m se 0 sizeOfEntry
  let m := writeBytes m se [0x5f, 0x53, 0x4d, 0x5f]
  let m := writeLE m (se + 5) 1 sizeOfEntry
  let m := writeLE m (se + 6) 1 2
  let m := writeLE m (se + 7) 1 7
  let m := writeLE m (se + 8) 2 24
  let m := writeLE m (se + 28) 2 handle
  let m := writeBytes m (se + 16) [0x5f, 0x44, 0x4d, 0x49, 0x5f]
  let m := writeLE m (se + 24) 4 tables
  let m := writeLE m (se + 22) 2 len
  let m := Function.update m (se + 21) (smbiosChecksum m (se + 0x10) (sizeOfEntry - 0x10))
  Function.update m (se + 4) (smbiosChecksum m se sizeOfEntry)

def smbiosWriteTables (fuel : ℕ) (devices : Devices) (m : Mem) (current : ℕ) :
    Option (Mem × ℕ) := do
  let se := Word.alignUp 32 current 16
  let tables := Word.alignUp 32 (Word.add 32 se sizeOfEntry) 16
  let s ← writeStructures cfg fuel devices m tables
  some (writeEntry s.m se s.handle tables s.len, s.current)

end ApuBios.Smbios
