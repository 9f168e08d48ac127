import ApuBios.Arch.Acpigen.Names

/-!
# Well-nested uses

A caller adds up what the generators return, and closes each object with the length that it has
then, without the opcode. What it generates is a list of AML terms.
-/

namespace ApuBios.Acpigen

open Aml

/-! ### Uses -/

/-- An item of a resource template. -/
inductive ResourceItem
  | mem32fixed (readwrite : Bool) (base size : ℕ)
  | register (addr : AcpiAddr)
  | io16 (min max : ℕ) (align len : UInt8) (decode16 : Bool)

def ResourceItem.run : ResourceItem → Gen ℕ
  | .mem32fixed readwrite base size => acpigenWriteMem32fixed readwrite base size
  | .register addr => acpigenWriteRegister addr
  | .io16 min max align len decode16 => acpigenWriteIo16 min max align len decode16

/-- The generators that write whole terms. -/
inductive Call
  | byte (data : ℕ)
  | dword (data : ℕ)
  | qword (data : ℕ)
  | name (path : NamePath)
  | nameByte (path : NamePath) (val : ℕ)
  | nameDword (path : NamePath) (val : ℕ)
  | nameQword (path : NamePath) (val : ℕ)
  | template (items : List ResourceItem)
  | mainboardTemplate (devices : List Device)
  | mainboardResources (devices : List Device) (scope path : NamePath)
  | ppc (nr : ℕ)
  | ppcNVS
  | tpc (gnvsTpcLimit : NamePath)
  | emptyPCT
  | emptyPTC
  | pss (coreFreq power transLat busmLat control status : ℕ)
  | psd (domain numprocs coordtype : ℕ)
  | tsd (domain numprocs coordtype : ℕ)
  | cstEntry (cstate : AcpiCstate)
  | cst (cstates : List AcpiCstate)
  | tss (tstateList : List AcpiTstate)

def Call.run : Call → Gen ℕ
  | .byte data => acpigenWriteByte data
  | .dword data => acpigenWriteDword data
  | .qword data => acpigenWriteQword data
  | .name path => acpigenWriteName path.chars
  | .nameByte path val => acpigenWriteNameByte path.chars val
  | .nameDword path val => acpigenWriteNameDword path.chars val
  | .nameQword path val => acpigenWriteNameQword path.chars val
  | .template items => Acpigen.template (writeAll ResourceItem.run items)
  | .mainboardTemplate devices => acpigenWriteMainboardResourceTemplate devices
  | .mainboardResources devices scope path =>
    acpigenWriteMainboardResources devices scope.chars path.chars
  | .ppc nr => acpigenWritePPC nr
  | .ppcNVS => acpigenWritePPCNVS
  | .tpc gnvsTpcLimit => acpigenWriteTPC gnvsTpcLimit.chars
  | .emptyPCT => acpigenWriteEmptyPCT
  | .emptyPTC => acpigenWriteEmptyPTC
  | .pss coreFreq power transLat busmLat control status =>
    acpigenWritePSSPackage coreFreq power transLat busmLat control status
  | .psd domain numprocs coordtype => acpigenWritePSDPackage domain numprocs coordtype
  | .tsd domain numprocs coordtype => acpigenWriteTSDPackage domain numprocs coordtype
  | .cstEntry cstate => acpigenWriteCSTPackageEntry cstate
  | .cst cstates => acpigenWriteCSTPackage cstates
  | .tss tstateList => acpigenWriteTSSPackage tstateList

/-- The generators that open an object. -/
inductive Opener
  | scope (path : NamePath)
  | package (nrEl : ℕ)
  | processor (cpuindex : UInt8) (pblockAddr : ℕ) (pblockLen : UInt8)

def Opener.run : Opener → Gen ℕ
  | .scope path => acpigenWriteScope path.chars
  | .package nrEl => acpigenWritePackage nrEl
  | .processor cpuindex pblockAddr pblockLen =>
    acpigenWriteProcessor cpuindex pblockAddr pblockLen

def Opener.opcodeLength : Opener → ℕ
  | .processor .. => 2
  | _ => 1

/-- Generators that are used one after the other and inside each other. -/
inductive Use
  | done
  | call (c : Call) (rest : Use)
  | nest (o : Opener) (body rest : Use)

/-- What the caller executes; the sum of the lengths is returned. -/
def Use.run : Use → Gen ℕ
  | .done => return 0
  | .call c rest => do
    let len ← c.run
    let k ← rest.run
    return len + k
  | .nest o body rest => do
    let len ← block o.run o.opcodeLength body.run
    let k ← rest.run
    return len + k

/-! ### Their terms -/

/-- A name without a prefix. -/
def simple (lead : UInt8) (rest : List UInt8) (valid : lead = 0x5f ∨ 0x41 ≤ lead ∧ lead ≤ 0x5a)
    (plain : ∀ c ∈ rest, c ≠ 0 ∧ c ≠ 0x2e) : NamePath :=
  ⟨false, 0, [⟨lead, rest, valid, plain⟩], List.cons_ne_nil _ _, show 1 < 256 by decide⟩

def namePCT : NamePath := simple 0x5f [0x50, 0x43, 0x54] underscore_valid (by simp)
def namePTC : NamePath := simple 0x5f [0x50, 0x54, 0x43] underscore_valid (by simp)
def namePPC : NamePath := simple 0x5f [0x50, 0x50, 0x43] underscore_valid (by simp)
def namePPCM : NamePath := simple 0x50 [0x50, 0x43, 0x4d] (by decide) (by simp)
def nameTPC : NamePath := simple 0x5f [0x54, 0x50, 0x43] underscore_valid (by simp)
def namePSD : NamePath := simple 0x5f [0x50, 0x53, 0x44] underscore_valid (by simp)
def nameTSD : NamePath := simple 0x5f [0x54, 0x53, 0x44] underscore_valid (by simp)
def nameCST : NamePath := simple 0x5f [0x43, 0x53, 0x54] underscore_valid (by simp)
def nameTSS : NamePath := simple 0x5f [0x54, 0x53, 0x53] underscore_valid (by simp)

def const (w : Size) (v : ℕ) : Terms := .leaf (.const w (v % 256 ^ w.bytes)) .nil

def named (path : NamePath) : Terms := .leaf (.name path.string) .nil

/-- Terms one after the other. -/
def concat (ts : List Terms) : Terms := ts.foldr Terms.append .nil

def package (nrEl : ℕ) (elements : List Terms) : Terms :=
  .node (.package (UInt8.ofNat nrEl)) 1 (concat elements) .nil

def ResourceItem.bytes : ResourceItem → List UInt8
  | .mem32fixed readwrite base size =>
    [0x86, 0x09, 0x00, if readwrite then 0x01 else 0x00] ++ (leBytes 4 base ++ leBytes 4 size)
  | .register addr =>
    [0x82, 0x0c, 0x00, addr.spaceId, addr.bitWidth, addr.bitOffset, addr.resv] ++
      (leBytes 4 addr.addrl ++ leBytes 4 addr.addrh)
  | .io16 min max align len decode16 =>
    [0x47, if decode16 then 0x01 else 0x00] ++ (leBytes 2 min ++ (leBytes 2 max ++ [align, len]))

/-- The buffer of a resource template ends with the end tag. -/
def templateTerms (items : List ResourceItem) : Terms :=
  .leaf (.buffer 1 .word (items.flatMap ResourceItem.bytes ++ [0x79, 0x00])) .nil

/-- The ranges of at most 255 ports that make up a resource. -/
def ioRanges (base size : ℕ) : List ResourceItem :=
  if _h : 0 < size then
    let sz := if 255 < size then 255 else size
    .io16 base base 0 (UInt8.ofNat sz) true :: ioRanges ((base + sz) % 2 ^ 64) (size - sz)
  else []
termination_by size
decreasing_by split_ifs <;> omega

def matching (devices : List Device) (type : BitVec 32) : List Resource :=
  devices.flatMap fun curdev => if curdev.enabled then
    curdev.resourceList.filter fun res =>
      res.flags &&& type = type ∧ res.flags &&& Allocator.IORESOURCE_SUBTRACTIVE = 0
    else []

/-- The reserved resources of all devices. -/
def mainboardItems (devices : List Device) : List ResourceItem :=
  (matching devices (Allocator.IORESOURCE_MEM ||| IORESOURCE_RESERVE)).map
      (fun res => .mem32fixed false res.base res.size) ++
    (matching devices ( Allocator.IORESOURCE_IO ||| IORESOURCE_RESERVE)).flatMap
      fun res => ioRanges res.base res.size

def method (path : NamePath) (value : Terms) : Terms :=
  .node (.method path.string 0) 1 (.leaf .ret value) .nil

/-- A register that is not there. -/
def emptyRegister : ResourceItem := .register ⟨ACPI_ADDRESS_SPACE_FIXED, 0, 0, 0, 0, 0⟩

/-- The stream states its lengths in one byte. -/
def emptyPCTTerms : Terms :=
  let buffer := Leaf.buffer 0 .byte (emptyRegister.bytes ++ [0x79, 0x00])
  .leaf (.name namePCT.string) (.node (.package 2) 0 (.leaf buffer (.leaf buffer .nil)) .nil)

def dependencyTerms (path : NamePath) (domain numprocs coordtype : ℕ) : Terms :=
  (named path).append (package 1 [package 5 [const .byte 5, const .byte 0, const .dword domain,
    const .dword coordtype, const .dword numprocs]])

def cstateTerms (cstate : AcpiCstate) : Terms :=
  package 4 [templateTerms [.register cstate.resource], const .dword cstate.ctype,
    const .dword cstate.latency, const .dword cstate.power]

def tstateTerms (tstate : AcpiTstate) : Terms :=
  package 5 [const .dword tstate.percent, const .dword tstate.power, const .dword tstate.latency,
    const .dword tstate.control, const .dword tstate.status]

def Call.terms : Call → Terms
  | .byte data => const .byte data
  | .dword data => const .dword data
  | .qword data => const .qword data
  | .name path => named path
  | .nameByte path val => (named path).append (const .byte val)
  | .nameDword path val => (named path).append (const .dword val)
  | .nameQword path val => (named path).append (const .qword val)
  | .template items => templateTerms items
  | .mainboardTemplate devices => templateTerms (mainboardItems devices)
  | .mainboardResources devices scope path =>
    .node (.scope scope.string) 1 ((named path).append (templateTerms (mainboardItems devices))) .nil
  | .ppc nr => method namePPC (const .byte nr)
  | .ppcNVS => method namePPC (.leaf (.ref namePPCM.string) .nil)
  | .tpc gnvsTpcLimit => method nameTPC (.leaf (.ref gnvsTpcLimit.string) .nil)
  | .emptyPCT => emptyPCTTerms
  | .emptyPTC => (named namePTC).append
      (package 2 [templateTerms [emptyRegister], templateTerms [emptyRegister]])
  | .pss coreFreq power transLat busmLat control status =>
    package 6 [const .dword coreFreq, const .dword power, const .dword transLat,
      const .dword busmLat, const .dword control, const .dword status]
  | .psd domain numprocs coordtype => dependencyTerms namePSD domain numprocs coordtype
  | .tsd domain numprocs coordtype => dependencyTerms nameTSD domain numprocs coordtype
  | .cstEntry cstate => cstateTerms cstate
  | .cst cstates => (named nameCST).append
      (package (cstates.length + 1) (const .dword cstates.length :: cstates.map cstateTerms))
  | .tss tstateList => (named nameTSS).append
      (package tstateList.length (tstateList.map tstateTerms))

def Opener.header : Opener → Header
  | .scope path => .scope path.string
  | .package nrEl => .package (UInt8.ofNat nrEl)
  | .processor cpuindex pblockAddr pblockLen =>
    .processor (processorPath cpuindex).string cpuindex (pblockAddr % 256 ^ 4) pblockLen

/-- The terms that a use generates. -/
def Use.terms : Use → Terms
  | .done => .nil
  | .call c rest => c.terms.append rest.terms
  | .nest o body rest => .node o.header 1 body.terms rest.terms

/-- How many lengths are open at once. -/
def Call.depth : Call → ℕ
  | .template _ | .mainboardTemplate _ | .ppc _ | .ppcNVS | .tpc _ | .pss .. => 1
  | .mainboardResources .. | .emptyPTC | .psd .. | .tsd .. | .cstEntry _ | .tss _ => 2
  | .cst _ => 3
  | _ => 0

def Use.depth : Use → ℕ
  | .done => 0
  | .call c rest => max c.depth rest.depth
  | .nest _ body rest => max (body.depth + 1) rest.depth

end ApuBios.Acpigen
