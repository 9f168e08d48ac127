import ApuBios.Libpayload.Options.Basic
import ApuBios.Libpayload.Options.Numbers

/-!
# Options as text

Model of `set_option_from_string` and `get_option_as_string` in `drivers/options.c` of libpayload, and of
the lookups of enums. No value means that a byte behind the end of a buffer or through a null pointer is
read, or that a loop does not end.
-/

namespace ApuBios.Options

open CmosOption

def CB_CMOS_MAX_TEXT_LENGTH : ℕ := 32

/-- `struct cb_cmos_entries` -/
structure CbCmosEntries extends CmosEntry where
  configId : BitVec 32
  deriving DecidableEq

/-- `struct cb_cmos_enums`; the text has no terminator if it fills its field. -/
structure CbCmosEnums where
  configId : BitVec 32
  value : BitVec 32
  text : List (BitVec 8)
  text_length : text.length = CB_CMOS_MAX_TEXT_LENGTH

/-- The entries of a table, its enums, and what is behind each. -/
structure CbCmosTable where
  entries : List CbCmosEntries
  enums : List CbCmosEnums
  /-- The fields of an entry where the first record behind the entries is. -/
  behindEntries : CbCmosEntries
  /-- The fields of an enum where the first record behind the enums is. -/
  behindEnums : CbCmosEnums

def CbCmosTable.toOptionTable (table : CbCmosTable) : CbCmosOptionTable where
  entries := table.entries.map (·.toCmosEntry)
  behind := table.behindEntries.toCmosEntry

/-! ### Lookups -/

/-- `lookup_cmos_entry` -/
def CbCmosTable.lookupEntry (table : CbCmosTable) (name : List (BitVec 8)) : Option CbCmosEntries :=
  (match table.entries with
    | [] => [table.behindEntries]
    | entries => entries).find? fun ce => (name.take CMOS_MAX_NAME_LENGTH).isPrefixOf ce.name

/-- What `first_cmos_enum_of_id` and `next_cmos_enum_of_id` go through. The tag of the first record is
not looked at. -/
def CbCmosTable.enumsOfId (table : CbCmosTable) (id : BitVec 32) : List CbCmosEnums :=
  (match table.enums with
    | [] => [table.behindEnums]
    | enums => enums).filter fun cmosEnum => cmosEnum.configId = id

/-- No value and no text stand for null pointers. -/
def lookupCmosEnumCore (table : CbCmosTable) (configId : BitVec 32) (value : Option (BitVec 8))
    (text : Option (List (BitVec 8))) : Option CbCmosEnums :=
  (table.enumsOfId configId).find? fun cmosEnum =>
    (value.all fun v => cmosEnum.value = v.setWidth 32) &&
      (text.all fun s => (s.take CB_CMOS_MAX_TEXT_LENGTH).isPrefixOf cmosEnum.text)

def lookupCmosEnumByValue (table : CbCmosTable) (configId : BitVec 32) (value : BitVec 8) :
    Option CbCmosEnums :=
  lookupCmosEnumCore table configId (some value) none

def lookupCmosEnumByLabel (table : CbCmosTable) (configId : BitVec 32) (label : List (BitVec 8)) :
    Option CbCmosEnums :=
  lookupCmosEnumCore table configId none (some label)

/-! ### Buffers -/

/-- The bytes of an unsigned integer in memory. -/
def leBytes (size v : ℕ) : List (BitVec 8) := (Aml.leBytes size v).map UInt8.toBitVec

def ofLe (bs : List (BitVec 8)) : ℕ := Aml.ofLe (bs.map UInt8.ofBitVec)

/-- The copy that `strdup` makes, without its terminator. -/
def strdup (buf : List (BitVec 8)) : Option (List (BitVec 8)) :=
  if buf.contains 0 then some (buf.takeWhile (· ≠ 0)) else none

/-! ### Values -/

def optionsChecksumValid (cks : CbCmosChecksum) (c : Cmos) : Bool :=
  let rangeStart := cks.rangeStart / 8
  let rangeEnd := cks.rangeEnd / 8
  let checksumLocation := cks.location / 8
  let checksum : BitVec 16 := ((List.range' rangeStart (rangeEnd + 1 - rangeStart)).map fun i =>
    (cmosRead c i).setWidth 16).sum
  let checksumOld : BitVec 16 := ((cmosRead c checksumLocation).setWidth 16 <<< 8) |||
    (cmosRead c (checksumLocation + 1)).setWidth 16
  checksumOld == checksum

/-- The bytes that are stored through the pointer. -/
def getCmosValue (c : Cmos) (bitnum len : ℕ) : Option (List (BitVec 8)) :=
  let addr := bitnum / 8
  let bit := bitnum % 8
  if len ≤ 8 then
    some [(cmosRead c addr >>> bit) &&& ((1#8 <<< len) - 1)]
  else if len % 8 ≠ 0 then
    none
  else
    some ((List.range (len / 8)).map fun i => cmosRead c (addr + i))

/-- The buffer of `get_option_as_string`: what has been read into the zeros. -/
def rawBuffer (len : ℕ) (value : List (BitVec 8)) : List (BitVec 8) :=
  let cmosLength := max ((len + 7) / 8) 8
  value ++ List.replicate (cmosLength + 1 - value.length) 0

/-- The result, and the string that is stored through the pointer. -/
def getOptionAsString (cks : CbCmosChecksum) (table : CbCmosTable) (c : Cmos)
    (name : List (BitVec 8)) : Option (ℕ × Option (List (BitVec 8))) :=
  match table.lookupEntry name with
  | none => some (1, none)
  | some ce =>
    (getCmosValue c ce.bit ce.length).bind fun value =>
      let raw := rawBuffer ce.length value
      let ret := if optionsChecksumValid cks c then 0 else 1
      if ce.config = 0x68 then
        some (ret, some (printNumber (ofLe (raw.take 8))))
      else if ce.config = 0x73 then
        (strdup raw).map fun dest => (ret, some dest)
      else if ce.config = 0x65 then
        (lookupCmosEnumByValue table ce.configId (raw.headD 0)).bind fun cmosEnum =>
          (strdup cmosEnum.text).map fun dest => (ret, some dest)
      else
        some (1, none)

/-- The value is the string before its terminator. -/
def setOptionFromString (cks : CbCmosChecksum) (table : CbCmosTable) (c : Cmos)
    (value name : List (BitVec 8)) : Option (ℕ × Cmos) :=
  match table.lookupEntry name with
  | none => some (1, c)
  | some ce =>
    if ce.config = 0x68 then
      setOptionWith cks table.toOptionTable c (leBytes 8 (strtoull value)) name
    else if ce.config = 0x73 then
      setOptionWith cks table.toOptionTable c (value ++ [0]) name
    else if ce.config = 0x65 then
      (lookupCmosEnumByLabel table ce.configId value).bind fun cmosEnum =>
        setOptionWith cks table.toOptionTable c (leBytes 4 cmosEnum.value.toNat) name
    else
      some (1, c)

end ApuBios.Options
