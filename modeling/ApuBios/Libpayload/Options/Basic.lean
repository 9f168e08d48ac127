import ApuBios.Drivers.CmosOption.RoundTrip

/-!
# CMOS options of a payload

Model of `set_option_with` in `drivers/options.c` of libpayload. The accessors take the address of a
byte in eight bits, as the CMOS does. No value means that a byte behind the end of the caller's
buffer is read, or that a loop does not end.
-/

namespace ApuBios.Options

open CmosOption

/-- The fields of `struct cb_cmos_checksum` that are used, in bits. -/
structure CbCmosChecksum where
  rangeStart : ℕ
  rangeEnd : ℕ
  location : ℕ
  deriving DecidableEq, Repr

/-- The records of an option table: the entries, and what is behind them. -/
structure CbCmosOptionTable where
  entries : List CmosEntry
  /-- The fields of an entry where the first record behind the entries is. -/
  behind : CmosEntry

def fixOptionsChecksumWith (cks : CbCmosChecksum) (c : Cmos) : Cmos :=
  let rangeStart := cks.rangeStart / 8
  let rangeEnd := cks.rangeEnd / 8
  let checksumLocation := cks.location / 8
  let checksum : BitVec 16 := ((List.range' rangeStart (rangeEnd + 1 - rangeStart)).map fun i =>
    (cmosRead c i).setWidth 16).sum
  let c := cmosWrite c ((checksum >>> 8).setWidth 8) checksumLocation
  cmosWrite c ((checksum &&& 0xff).setWidth 8) (checksumLocation + 1)

def setCmosValue (c : Cmos) (bitnum len : ℕ) (value : List (BitVec 8)) : Option Cmos :=
  let addr := bitnum / 8
  let bit := bitnum % 8
  if len ≤ 8 then
    value.head?.map fun b : BitVec 8 =>
      let low : BitVec 8 := (1#8 <<< len) - 1
      cmosWrite c ((cmosRead c addr &&& ~~~(low <<< bit)) ||| ((b &&& low) <<< bit)) addr
  else if len % 8 ≠ 0 then
    none
  else if value.length < len / 8 then
    none
  else
    some (writeBytes c addr (value.take (len / 8)))

/-- The tag of the first record is not looked at. -/
def lookupCmosEntry (table : CbCmosOptionTable) (name : List (BitVec 8)) : Option CmosEntry :=
  (match table.entries with
    | [] => [table.behind]
    | entries => entries).find? fun ce => (name.take CMOS_MAX_NAME_LENGTH).isPrefixOf ce.name

/-- The result and the CMOS. -/
def setOptionWith (cks : CbCmosChecksum) (table : CbCmosOptionTable) (c : Cmos)
    (value name : List (BitVec 8)) : Option (ℕ × Cmos) :=
  match lookupCmosEntry table name with
  | none => some (1, c)
  | some ce =>
    (setCmosValue c ce.bit ce.length value).map fun c => (0, fixOptionsChecksumWith cks c)

/-- The checksum record that belongs to the macros of coreboot. -/
structure Exports (l : Layout) (cks : CbCmosChecksum) : Prop where
  rangeStart : cks.rangeStart / 8 = l.LB_CKS_RANGE_START
  rangeEnd : cks.rangeEnd / 8 = l.LB_CKS_RANGE_END
  location : cks.location / 8 = l.LB_CKS_LOC

lemma fixOptionsChecksumWith_eq {l : Layout} {cks : CbCmosChecksum} (h : Exports l cks)
    (c : Cmos) : fixOptionsChecksumWith cks c = rtcSetChecksum l c := by
  have hlow (sum : BitVec 16) : (sum &&& 0xff).setWidth 8 = sum.setWidth 8 := by
    rw [BitVec.setWidth_and]
    exact and_ones _
  simp only [fixOptionsChecksumWith, h.rangeStart, h.rangeEnd, h.location, hlow]
  rfl

end ApuBios.Options
