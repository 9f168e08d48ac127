import ApuBios.Library.Checksum
import ApuBios.Library.Word

/-!
# The MP configuration table

Model of `arch/x86/boot/mpspec.c`: entries of two kinds are appended to a table, each kind with its
own counter in the header.
-/

namespace ApuBios.MpTable

open Mem

variable (m : Mem)

/-! ### The header -/

/-- `struct mp_config_table` -/
def sizeOfTable : ℕ := 44

def mpcLength (mc : ℕ) : ℕ := readLE m (mc + 4) 2
def mpcEntryCount (mc : ℕ) : ℕ := readLE m (mc + 34) 2
def mpeLength (mc : ℕ) : ℕ := readLE m (mc + 40) 2
def mpcChecksum (mc : ℕ) : UInt8 := m (mc + 7)
def mpeChecksum (mc : ℕ) : UInt8 := m (mc + 42)

/-- A string in a member of a fixed size, filled with spaces. -/
def padded (s : List UInt8) (n : ℕ) : List UInt8 := s.take n ++ List.replicate (n - s.length) 0x20

def mptableInit (mc lapicAddr : ℕ) (vendor partNumber : List UInt8) : Mem :=
  let m := memset m mc 0 sizeOfTable
  let m := writeBytes m mc [0x50, 0x43, 0x4d, 0x50]
  let m := writeLE m (mc + 4) 2 sizeOfTable
  let m := writeLE m (mc + 6) 1 4
  let m := writeLE m (mc + 7) 1 0
  let m := writeLE m (mc + 28) 4 0
  let m := writeLE m (mc + 32) 2 0
  let m := writeLE m (mc + 34) 2 0
  let m := writeLE m (mc + 36) 4 lapicAddr
  let m := writeLE m (mc + 40) 2 0
  let m := writeLE m (mc + 42) 1 0
  let m := writeLE m (mc + 43) 1 0
  let m := writeBytes m (mc + 8) (padded vendor 8)
  writeBytes m (mc + 16) (padded partNumber 12)

/-! ### Checksums -/

def smpComputeChecksum (v len : ℕ) : UInt8 :=
  (List.range len).foldl (fun checksum i => checksum - m (v + i)) 0

/-! ### Entries -/

/-- A member of an entry: its offset, its width and its value. -/
structure Field where
  offset : ℕ
  width : ℕ
  value : ℕ

/-- The members are stored one after the other. -/
def writeFields (m : Mem) (p : ℕ) (fields : List Field) : Mem :=
  fields.foldl (fun m f => writeLE m (p + f.offset) f.width f.value) m

/-- An entry, whose members lie inside it. -/
structure Entry where
  size : ℕ
  fields : List Field
  size_pos : 0 < size
  inside : ∀ f ∈ fields, f.offset + f.width ≤ size

/-- An entry is cleared before its members are stored. -/
def writeEntry (p : ℕ) (e : Entry) : Mem := writeFields (memset m p 0 e.size) p e.fields

def MP_PROCESSOR : ℕ := 0
def MP_BUS : ℕ := 1
def MP_IOAPIC : ℕ := 2
def MP_INTSRC : ℕ := 3
def MP_LINTSRC : ℕ := 4
def MPE_SYSTEM_ADDRESS_SPACE : ℕ := 0x80
def MPE_BUS_HIERARCHY : ℕ := 0x81
def MPE_COMPATIBILITY_ADDRESS_SPACE : ℕ := 0x82
def MPC_APIC_USABLE : ℕ := 0x01

/-- The calls that append an entry to the base table. -/
inductive BaseCall
  | processor (apicid apicver cpuflag cpufeature featureflag : ℕ)
  | bus (id : ℕ) (bustype : ℕ → UInt8)
  | ioapic (id ver apicaddr : ℕ)
  | intsrc (irqtype irqflag srcbus srcbusirq dstapic dstirq : ℕ)
  | lintsrc (irqtype irqflag srcbusid srcbusirq destapic destapiclint : ℕ)

/-- The calls that append an extended entry. -/
inductive ExtendedCall
  | addressSpace (busid addressType baseLow baseHigh lengthLow lengthHigh : ℕ)
  | busHierarchy (busid busInfo parentBusid : ℕ)
  | compatibilityAddressSpace (busid addressModifier rangeList : ℕ)

def BaseCall.size : BaseCall → ℕ
  | .processor .. => 20
  | _ => 8

def BaseCall.fields : BaseCall → List Field
  | .processor apicid apicver cpuflag cpufeature featureflag =>
    [⟨0, 1, MP_PROCESSOR⟩, ⟨1, 1, apicid⟩, ⟨2, 1, apicver⟩, ⟨3, 1, cpuflag⟩, ⟨4, 4, cpufeature⟩,
      ⟨8, 4, featureflag⟩]
  | .bus id bustype =>
    [⟨0, 1, MP_BUS⟩, ⟨1, 1, id⟩] ++ (List.range 6).map fun i => ⟨2 + i, 1, (bustype i).toNat⟩
  | .ioapic id ver apicaddr =>
    [⟨0, 1, MP_IOAPIC⟩, ⟨1, 1, id⟩, ⟨2, 1, ver⟩, ⟨3, 1, MPC_APIC_USABLE⟩, ⟨4, 4, apicaddr⟩]
  | .intsrc irqtype irqflag srcbus srcbusirq dstapic dstirq =>
    [⟨0, 1, MP_INTSRC⟩, ⟨1, 1, irqtype⟩, ⟨2, 2, irqflag⟩, ⟨4, 1, srcbus⟩, ⟨5, 1, srcbusirq⟩,
      ⟨6, 1, dstapic⟩, ⟨7, 1, dstirq⟩]
  | .lintsrc irqtype irqflag srcbusid srcbusirq destapic destapiclint =>
    [⟨0, 1, MP_LINTSRC⟩, ⟨1, 1, irqtype⟩, ⟨2, 2, irqflag⟩, ⟨4, 1, srcbusid⟩, ⟨5, 1, srcbusirq⟩,
      ⟨6, 1, destapic⟩, ⟨7, 1, destapiclint⟩]

def ExtendedCall.size : ExtendedCall → ℕ
  | .addressSpace .. => 20
  | _ => 8

def ExtendedCall.fields : ExtendedCall → List Field
  | .addressSpace busid addressType baseLow baseHigh lengthLow lengthHigh =>
    [⟨0, 1, MPE_SYSTEM_ADDRESS_SPACE⟩, ⟨1, 1, 20⟩, ⟨2, 1, busid⟩, ⟨3, 1, addressType⟩,
      ⟨4, 4, baseLow⟩, ⟨8, 4, baseHigh⟩, ⟨12, 4, lengthLow⟩, ⟨16, 4, lengthHigh⟩]
  | .busHierarchy busid busInfo parentBusid =>
    [⟨0, 1, MPE_BUS_HIERARCHY⟩, ⟨1, 1, 8⟩, ⟨2, 1, busid⟩, ⟨3, 1, busInfo⟩, ⟨4, 1, parentBusid⟩]
  | .compatibilityAddressSpace busid addressModifier rangeList =>
    [⟨0, 1, MPE_COMPATIBILITY_ADDRESS_SPACE⟩, ⟨1, 1, 8⟩, ⟨2, 1, busid⟩, ⟨3, 1, addressModifier⟩,
      ⟨4, 4, rangeList⟩]

lemma BaseCall.inside (c : BaseCall) : ∀ f ∈ c.fields, f.offset + f.width ≤ c.size := by
  cases c <;> simp [BaseCall.fields, BaseCall.size, List.range_succ]

lemma ExtendedCall.inside (c : ExtendedCall) : ∀ f ∈ c.fields, f.offset + f.width ≤ c.size := by
  cases c <;> simp [ExtendedCall.fields, ExtendedCall.size]

def BaseCall.entry (c : BaseCall) : Entry where
  size := c.size
  fields := c.fields
  size_pos := by cases c <;> exact Nat.succ_pos _
  inside := c.inside

def ExtendedCall.entry (c : ExtendedCall) : Entry where
  size := c.size
  fields := c.fields
  size_pos := by cases c <;> exact Nat.succ_pos _
  inside := c.inside

/-! ### The table -/

def smpNextMpcEntry (mc : ℕ) : ℕ := mc + mpcLength m mc

def smpAddMpcEntry (mc length : ℕ) : Mem :=
  let m := writeLE m (mc + 4) 2 (Word.add 16 (mpcLength m mc) length)
  writeLE m (mc + 34) 2 (Word.add 16 (mpcEntryCount m mc) 1)

def smpNextMpeEntry (mc : ℕ) : ℕ := mc + mpcLength m mc + mpeLength m mc

/-- The length of the entry is read back from it. -/
def smpAddMpeEntry (mc mpe : ℕ) : Mem :=
  writeLE m (mc + 40) 2 (Word.add 16 (mpeLength m mc) (m (mpe + 1)).toNat)

def BaseCall.exec (mc : ℕ) (c : BaseCall) : Mem :=
  smpAddMpcEntry (writeEntry m (smpNextMpcEntry m mc) c.entry) mc c.size

def ExtendedCall.exec (mc : ℕ) (c : ExtendedCall) : Mem :=
  let mpe := smpNextMpeEntry m mc
  smpAddMpeEntry (writeEntry m mpe c.entry) mc mpe

def mptableFinalize (mc : ℕ) : Mem :=
  let m := Function.update m (mc + 42)
    (smpComputeChecksum m (smpNextMpcEntry m mc) (mpeLength m mc))
  Function.update m (mc + 7) (smpComputeChecksum m mc (mpcLength m mc))

/-- The table after the calls. -/
def runBase (mc : ℕ) (calls : List BaseCall) : Mem :=
  calls.foldl (fun m c => c.exec m mc) m

def runExtended (mc : ℕ) (calls : List ExtendedCall) : Mem :=
  calls.foldl (fun m c => c.exec m mc) m

/-! ### Reading -/

/-- The length of an entry of the base table, by its type. -/
def mpcEntryLength (p : ℕ) : ℕ :=
  if (m p).toNat = MP_PROCESSOR then 20 else if (m p).toNat ≤ MP_LINTSRC then 8 else 0

/-- The length that an extended entry carries. -/
def mpeEntryLength (p : ℕ) : ℕ := (m (p + 1)).toNat

end ApuBios.MpTable
