import ApuBios.Arch.Acpigen.Basic
import ApuBios.Device.Allocator.Basic

/-!
# Generated objects

The generators of `arch/x86/boot/acpigen.c` that write whole objects: resource templates, methods
and the packages that describe a processor.
-/

namespace ApuBios.Acpigen

/-! ### Resource templates -/

/-- `acpi_addr_t` -/
structure AcpiAddr where
  spaceId : UInt8
  bitWidth : UInt8
  bitOffset : UInt8
  resv : UInt8
  addrl : ℕ
  addrh : ℕ

def acpigenWriteMem32fixed (readwrite : Bool) (base size : ℕ) : Gen ℕ := do
  let _ ← acpigenEmitByte 0x86
  let _ ← acpigenEmitByte 0x09
  let _ ← acpigenEmitByte 0x00
  let _ ← acpigenEmitByte (if readwrite then 0x01 else 0x00)
  emitDword base
  emitDword size
  return 12

def acpigenWriteRegister (addr : AcpiAddr) : Gen ℕ := do
  let _ ← acpigenEmitByte 0x82
  let _ ← acpigenEmitByte 0x0c
  let _ ← acpigenEmitByte 0x00
  let _ ← acpigenEmitByte addr.spaceId
  let _ ← acpigenEmitByte addr.bitWidth
  let _ ← acpigenEmitByte addr.bitOffset
  let _ ← acpigenEmitByte addr.resv
  emitDword addr.addrl
  emitDword addr.addrh
  return 15

def acpigenWriteIo16 (min max : ℕ) (align len : UInt8) (decode16 : Bool) : Gen ℕ := do
  let _ ← acpigenEmitByte 0x47
  let _ ← acpigenEmitByte (if decode16 then 0x01 else 0x00)
  let _ ← acpigenEmitByte (UInt8.ofNat (min &&& 0xff))
  let _ ← acpigenEmitByte (UInt8.ofNat (min >>> 8 &&& 0xff))
  let _ ← acpigenEmitByte (UInt8.ofNat (max &&& 0xff))
  let _ ← acpigenEmitByte (UInt8.ofNat (max >>> 8 &&& 0xff))
  let _ ← acpigenEmitByte align
  let _ ← acpigenEmitByte len
  return 8

def acpigenWriteResourcetemplateHeader : Gen ℕ := do
  let len ← acpigenEmitByte 0x11
  let len₁ ← acpigenWriteLenF
  let len₂ ← acpigenEmitByte 0x0b
  pushCurrent
  let len₃ ← acpigenEmitByte 0x00
  let len₄ ← acpigenEmitByte 0x00
  return len + len₁ + len₂ + len₃ + len₄

def acpigenWriteResourcetemplateFooter (len : ℕ) : Gen ℕ := do
  let p ← popLen
  let len₁ ← acpigenEmitByte 0x79
  let len₂ ← acpigenEmitByte 0x00
  let len := len + len₁ + len₂
  poke p (UInt8.ofNat (len - 6 &&& 0xff))
  poke (p + 1) (UInt8.ofNat ((len - 6) >>> 8 &&& 0xff))
  acpigenPatchLen (len - 1)
  return 2

/-! ### The resources of the mainboard -/

/-- What `search_global_resources` looks at. -/
structure Resource where
  flags : BitVec 32
  base : ℕ
  size : ℕ

structure Device where
  enabled : Bool
  resourceList : List Resource

def IORESOURCE_RESERVE : BitVec 32 := 0x10000000

/-- The resources that are of the right kind. -/
def searchGlobalResources (devices : List Device) (typeMask type : BitVec 32)
    (search : Resource → Gen Unit) : Gen Unit :=
  devices.forM fun curdev =>
    if curdev.enabled then
      curdev.resourceList.forM fun res =>
        if res.flags &&& typeMask ≠ type then pure ()
        else if res.flags &&& Allocator.IORESOURCE_SUBTRACTIVE ≠ 0 then pure ()
        else search res
    else pure ()

def acpigenAddMainboardRsvdMem32 (res : Resource) : Gen Unit := do
  let _ ← acpigenWriteMem32fixed false res.base res.size

/-- Ranges of at most 255 ports. -/
def rsvdIoLoop (base size : ℕ) : Gen Unit :=
  if _h : 0 < size then do
    let sz := if 255 < size then 255 else size
    let _ ← acpigenWriteIo16 base base 0 (UInt8.ofNat sz) true
    rsvdIoLoop ((base + sz) % 2 ^ 64) (size - sz)
  else pure ()
termination_by size
decreasing_by split_ifs <;> omega

def acpigenAddMainboardRsvdIo (res : Resource) : Gen Unit := rsvdIoLoop res.base res.size

def acpigenWriteMainboardResourceTemplate (devices : List Device) : Gen ℕ := do
  let len ← acpigenWriteResourcetemplateHeader
  let start ← acpigenGetCurrent
  searchGlobalResources devices (Allocator.IORESOURCE_MEM ||| IORESOURCE_RESERVE)
    (Allocator.IORESOURCE_MEM ||| IORESOURCE_RESERVE) acpigenAddMainboardRsvdMem32
  searchGlobalResources devices ( Allocator.IORESOURCE_IO ||| IORESOURCE_RESERVE)
    ( Allocator.IORESOURCE_IO ||| IORESOURCE_RESERVE) acpigenAddMainboardRsvdIo
  let stop ← acpigenGetCurrent
  let len := len + (stop - start)
  let footer ← acpigenWriteResourcetemplateFooter len
  return len + footer

def acpigenWriteMainboardResources (devices : List Device) (scope name : List UInt8) : Gen ℕ := do
  let len ← acpigenWriteScope scope
  let len₁ ← acpigenWriteName name
  let len₂ ← acpigenWriteMainboardResourceTemplate devices
  let len := len + len₁ + len₂
  acpigenPatchLen (len - 1)
  return len

/-! ### Methods -/

def acpigenWritePPC (nr : ℕ) : Gen ℕ := do
  let _ ← acpigenEmitByte 0x14
  let len ← acpigenWriteLenF
  let name ← acpigenEmitNamestring (chars "_PPC")
  let _ ← acpigenEmitByte 0x00
  let _ ← acpigenEmitByte 0xa4
  let arg ← acpigenWriteByte nr
  let len := len + name + arg + 3
  acpigenPatchLen (len - 1)
  return len

def acpigenWritePPCNVS : Gen ℕ := do
  let _ ← acpigenEmitByte 0x14
  let len ← acpigenWriteLenF
  let name ← acpigenEmitNamestring (chars "_PPC")
  let _ ← acpigenEmitByte 0x00
  let _ ← acpigenEmitByte 0xa4
  let arg ← acpigenEmitNamestring (chars "PPCM")
  let len := len + name + arg + 3
  acpigenPatchLen (len - 1)
  return len

def acpigenWriteTPC (gnvsTpcLimit : List UInt8) : Gen ℕ := do
  let op ← acpigenEmitByte 0x14
  let len ← acpigenWriteLenF
  let name ← acpigenEmitNamestring (chars "_TPC")
  let flags ← acpigenEmitByte 0x00
  let ret ← acpigenEmitByte 0xa4
  let arg ← acpigenEmitNamestring gnvsTpcLimit
  let len := op + len + name + flags + ret + arg
  acpigenPatchLen (len - 1)
  return len

/-! ### Packages -/

def emptyPCT : List UInt8 :=
  [0x08, 0x5F, 0x50, 0x43, 0x54, 0x12, 0x2C,
    0x02, 0x11, 0x14, 0x0A, 0x11, 0x82, 0x0C, 0x00,
    0x7F, 0x00, 0x00, 0x00, 0x00, 0x00, 0x00, 0x00,
    0x00, 0x00, 0x00, 0x00, 0x79, 0x00, 0x11, 0x14,
    0x0A, 0x11, 0x82, 0x0C, 0x00, 0x7F, 0x00, 0x00,
    0x00, 0x00, 0x00, 0x00, 0x00, 0x00, 0x00, 0x00,
    0x00, 0x79, 0x00]

def acpigenWriteEmptyPCT : Gen ℕ := acpigenEmitStream emptyPCT emptyPCT.length

def ACPI_ADDRESS_SPACE_FIXED : UInt8 := 0x7f

def acpigenWriteEmptyPTC : Gen ℕ := do
  let addr : AcpiAddr := ⟨ACPI_ADDRESS_SPACE_FIXED, 0, 0, 0, 0, 0⟩
  let nlen ← acpigenWriteName (chars "_PTC")
  let len ← acpigenWritePackage 2
  let rlen ← acpigenWriteResourcetemplateHeader
  let register ← acpigenWriteRegister addr
  let rlen := rlen + register
  let footer ← acpigenWriteResourcetemplateFooter rlen
  let len := len + footer + rlen
  let rlen ← acpigenWriteResourcetemplateHeader
  let register ← acpigenWriteRegister addr
  let rlen := rlen + register
  let footer ← acpigenWriteResourcetemplateFooter rlen
  let len := len + footer + rlen
  acpigenPatchLen (len - 1)
  return len + nlen

def acpigenWritePSSPackage (coreFreq power transLat busmLat control status : ℕ) : Gen ℕ := do
  let len ← acpigenWritePackage 6
  let len₁ ← acpigenWriteDword coreFreq
  let len₂ ← acpigenWriteDword power
  let len₃ ← acpigenWriteDword transLat
  let len₄ ← acpigenWriteDword busmLat
  let len₅ ← acpigenWriteDword control
  let len₆ ← acpigenWriteDword status
  let len := len + len₁ + len₂ + len₃ + len₄ + len₅ + len₆
  acpigenPatchLen (len - 1)
  return len

/-- The common course of the `_PSD` and `_TSD` packages. -/
def writeDependency (name : List UInt8) (domain numprocs coordtype : ℕ) : Gen ℕ := do
  let lenh ← acpigenWriteName name
  let lenp ← acpigenWritePackage 1
  let len ← acpigenWritePackage 5
  let len₁ ← acpigenWriteByte 5
  let len₂ ← acpigenWriteByte 0
  let len₃ ← acpigenWriteDword domain
  let len₄ ← acpigenWriteDword coordtype
  let len₅ ← acpigenWriteDword numprocs
  let len := len + len₁ + len₂ + len₃ + len₄ + len₅
  acpigenPatchLen (len - 1)
  let len := len + lenp
  acpigenPatchLen (len - 1)
  return len + lenh

def acpigenWritePSDPackage (domain numprocs coordtype : ℕ) : Gen ℕ :=
  writeDependency (chars "_PSD") domain numprocs coordtype

def acpigenWriteTSDPackage (domain numprocs coordtype : ℕ) : Gen ℕ :=
  writeDependency (chars "_TSD") domain numprocs coordtype

/-- `acpi_cstate_t` -/
structure AcpiCstate where
  ctype : ℕ
  latency : ℕ
  power : ℕ
  resource : AcpiAddr

def acpigenWriteCSTPackageEntry (cstate : AcpiCstate) : Gen ℕ := do
  let len₀ ← acpigenWritePackage 4
  let len ← acpigenWriteResourcetemplateHeader
  let start ← acpigenGetCurrent
  let _ ← acpigenWriteRegister cstate.resource
  let stop ← acpigenGetCurrent
  let len := len + (stop - start)
  let footer ← acpigenWriteResourcetemplateFooter len
  let len := len + footer + len₀
  let len₁ ← acpigenWriteDword cstate.ctype
  let len₂ ← acpigenWriteDword cstate.latency
  let len₃ ← acpigenWriteDword cstate.power
  let len := len + len₁ + len₂ + len₃
  acpigenPatchLen (len - 1)
  return len

/-- The sum of the lengths of several objects. -/
def writeAll {α : Type} (write : α → Gen ℕ) : List α → Gen ℕ
  | [] => return 0
  | x :: xs => do
    let len ← write x
    let rest ← writeAll write xs
    return len + rest

def acpigenWriteCSTPackage (cstates : List AcpiCstate) : Gen ℕ := do
  let lenh ← acpigenWriteName (chars "_CST")
  let lenp ← acpigenWritePackage (cstates.length + 1)
  let len ← acpigenWriteDword cstates.length
  let entries ← writeAll acpigenWriteCSTPackageEntry cstates
  let len := len + entries + lenp
  acpigenPatchLen (len - 1)
  return len + lenh

/-- `acpi_tstate_t` -/
structure AcpiTstate where
  percent : ℕ
  power : ℕ
  latency : ℕ
  control : ℕ
  status : ℕ

def writeTstate (tstate : AcpiTstate) : Gen ℕ := do
  let len ← acpigenWritePackage 5
  let len₁ ← acpigenWriteDword tstate.percent
  let len₂ ← acpigenWriteDword tstate.power
  let len₃ ← acpigenWriteDword tstate.latency
  let len₄ ← acpigenWriteDword tstate.control
  let len₅ ← acpigenWriteDword tstate.status
  let len := len + len₁ + len₂ + len₃ + len₄ + len₅
  acpigenPatchLen (len - 1)
  return len

def acpigenWriteTSSPackage (tstateList : List AcpiTstate) : Gen ℕ := do
  let nlen ← acpigenWriteName (chars "_TSS")
  let plen ← acpigenWritePackage tstateList.length
  let entries ← writeAll writeTstate tstateList
  let plen := plen + entries
  acpigenPatchLen (plen - 1)
  return plen + nlen

end ApuBios.Acpigen
