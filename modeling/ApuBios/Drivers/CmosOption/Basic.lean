import ApuBios.Library.Word
import Mathlib.Data.BitVec
import Mathlib.Tactic

/-!
# CMOS options

Model of `set_option` and `get_option` in `drivers/pc80/mc146818rtc.c`. The table is the one in
`cmos_layout.bin`, nothing if there is no such file. A buffer of the caller is the list of its
bytes, and no value means that a byte behind its end is read.
-/

namespace ApuBios.CmosOption

/-- The bytes of the CMOS by their addresses. -/
abbrev Cmos := BitVec 8 → BitVec 8

def cmosRead (c : Cmos) (addr : ℕ) : BitVec 8 := c (BitVec.ofNat 8 addr)

def cmosWrite (c : Cmos) (value : BitVec 8) (addr : ℕ) : Cmos :=
  Function.update c (BitVec.ofNat 8 addr) value

/-- The macros in `option_table.h`; the stored checksum is not part of what it is computed from. -/
structure Layout where
  LB_CKS_RANGE_START : ℕ
  LB_CKS_RANGE_END : ℕ
  LB_CKS_LOC : ℕ
  range_lt : LB_CKS_RANGE_END < 256
  loc_lt : LB_CKS_LOC + 1 < 256
  apart : LB_CKS_LOC + 1 < LB_CKS_RANGE_START ∨ LB_CKS_RANGE_END < LB_CKS_LOC

/-- The fields of `struct cmos_entries` that are used; the name is that before its terminator. -/
structure CmosEntry where
  bit : ℕ
  length : ℕ
  config : ℕ
  name : List (BitVec 8)
  deriving DecidableEq

inductive CbErr
  | CB_SUCCESS
  | CB_ERR_ARG
  | CB_CMOS_LAYOUT_NOT_FOUND
  | CB_CMOS_OPTION_NOT_FOUND
  | CB_CMOS_ACCESS_ERROR
  | CB_CMOS_CHECKSUM_INVALID
  deriving DecidableEq, Repr

def CMOS_MAX_NAME_LENGTH : ℕ := 32

variable (l : Layout)

/-! ### The checksum -/

/-- The sum that both functions for the checksum compute. -/
def rangeSum (c : Cmos) : BitVec 16 :=
  ((List.range' l.LB_CKS_RANGE_START (l.LB_CKS_RANGE_END + 1 - l.LB_CKS_RANGE_START)).map fun i =>
    (cmosRead c i).setWidth 16).sum

def storedSum (c : Cmos) : BitVec 16 :=
  ((cmosRead c l.LB_CKS_LOC).setWidth 16 <<< 8) ||| (cmosRead c (l.LB_CKS_LOC + 1)).setWidth 16

def rtcChecksumValid (c : Cmos) : Bool := rangeSum l c == storedSum l c

def rtcSetChecksum (c : Cmos) : Cmos :=
  let sum := rangeSum l c
  let c := cmosWrite c ((sum >>> 8).setWidth 8) l.LB_CKS_LOC
  cmosWrite c (sum.setWidth 8) (l.LB_CKS_LOC + 1)

/-! ### Values -/

/-- The loop over whole bytes ends if `length` is a multiple of 8. -/
def getCmosValue (c : Cmos) (bit length : ℕ) : Option (List (BitVec 8)) :=
  let byte := bit / 8
  let byteBit := bit % 8
  if length < 9 then
    some [(cmosRead c byte >>> byteBit) &&& ((1#8 <<< length) - 1)]
  else if length % 8 ≠ 0 then
    none
  else
    some ((List.range (length / 8)).map fun i => cmosRead c (byte + i))

def writeBytes (c : Cmos) (byte : ℕ) : List (BitVec 8) → Cmos
  | [] => c
  | b :: bs => writeBytes (cmosWrite c b byte) (byte + 1) bs

/-- The bits of a field in its byte. -/
def mask (bit length : ℕ) : BitVec 8 := ((1#8 <<< length) - 1) <<< (bit % 8)

/-- What `set_cmos_value` writes for the value. The bits of `ret[0]` are not masked. -/
def writeValue (c : Cmos) (bit length : ℕ) (ret : List (BitVec 8)) : Option Cmos :=
  let byte := bit / 8
  if length ≤ 8 then
    ret.head?.map fun b : BitVec 8 =>
      cmosWrite c ((cmosRead c byte &&& ~~~mask bit length) ||| (b <<< (bit % 8))) byte
  else if ret.length < length / 8 then
    none
  else
    some (writeBytes c byte (ret.take (length / 8)))

/-- `chksum_update_needed`. For a field of several bytes the test is not part of the loop, so that
it is made with the byte behind the field. -/
def chksumUpdateNeeded (bit length : ℕ) : Bool :=
  let byte := bit / 8
  if length ≤ 8 then
    l.LB_CKS_RANGE_START ≤ byte && byte ≤ l.LB_CKS_RANGE_END
  else
    l.LB_CKS_RANGE_START ≤ byte + length / 8 && byte + length / 8 ≤ l.LB_CKS_RANGE_END

def setCmosValue (c : Cmos) (bit length : ℕ) (ret : List (BitVec 8)) : Option (CbErr × Cmos) :=
  if 8 < length ∧ (bit % 8 ≠ 0 ∨ length % 8 ≠ 0) then
    some (.CB_ERR_ARG, c)
  else
    (writeValue c bit length ret).map fun c =>
      (.CB_SUCCESS, if chksumUpdateNeeded l bit length then rtcSetChecksum l c else c)

/-! ### Options -/

/-- The first entry whose name starts with the name: `memcmp` compares no terminator. -/
def findEntry (table : List CmosEntry) (name : List (BitVec 8)) : Option CmosEntry :=
  table.find? fun ce => (name.take CMOS_MAX_NAME_LENGTH).isPrefixOf ce.name

/-- `strlen`, if there is a terminator. -/
def strlen (value : List (BitVec 8)) : Option ℕ := value.findIdx? (· == 0)

def getOption (table : Option (List CmosEntry)) (c : Cmos) (name : List (BitVec 8)) :
    Option (CbErr × List (BitVec 8)) :=
  match table with
  | none => some (.CB_CMOS_LAYOUT_NOT_FOUND, [])
  | some table =>
    match findEntry table name with
    | none => some (.CB_CMOS_OPTION_NOT_FOUND, [])
    | some ce =>
      (getCmosValue c ce.bit ce.length).map fun dest =>
        (if rtcChecksumValid l c then .CB_SUCCESS else .CB_CMOS_CHECKSUM_INVALID, dest)

/-- `ce->config == 's'` -/
def CmosEntry.isString (ce : CmosEntry) : Bool := ce.config == 0x73

/-- The number of bits of a string that are written. -/
def stringLength (ce : CmosEntry) (len : ℕ) : ℕ := max (len * 8) (Word.sub 32 ce.length 8)

def accessError : CbErr × Cmos → CbErr × Cmos
  | (.CB_SUCCESS, c) => (.CB_SUCCESS, c)
  | (_, c) => (.CB_CMOS_ACCESS_ERROR, c)

/-- The terminator that is written first. -/
def setTerminator (c : Cmos) (ce : CmosEntry) : Option (CbErr × Cmos) :=
  setCmosValue l c (Word.sub 32 (Word.add 32 ce.bit ce.length) 8) 8 [0]

def setOption (table : Option (List CmosEntry)) (c : Cmos) (name value : List (BitVec 8)) :
    Option (CbErr × Cmos) :=
  match table with
  | none => some (.CB_CMOS_LAYOUT_NOT_FOUND, c)
  | some table =>
    match findEntry table name with
    | none => some (.CB_CMOS_OPTION_NOT_FOUND, c)
    | some ce =>
      if ce.isString then
        (strlen value).bind fun len =>
          (setTerminator l c ce).bind fun
            | (.CB_SUCCESS, c) =>
              (setCmosValue l c ce.bit (stringLength ce len) value).map accessError
            | (_, c) => some (.CB_CMOS_ACCESS_ERROR, c)
      else
        (setCmosValue l c ce.bit ce.length value).map accessError

end ApuBios.CmosOption

/-!
# Which option a name selects

`get_option` and `set_option` compare as many bytes as the requested name has, without its
terminator, and take the first entry that agrees.
-/

namespace ApuBios.CmosOption

variable {l : Layout} {table : List CmosEntry} {c : Cmos} {name value : List (BitVec 8)}
  {ce : CmosEntry}

/-- What the options of a table do for a name: the entry that is found has exactly that name, and
without such an entry nothing is found and nothing is changed. -/
structure Exact (table : List CmosEntry) (name : List (BitVec 8)) : Prop where
  entry : ∀ ce, findEntry table name = some ce → ce ∈ table ∧ ce.name = name
  get_missing : (∀ ce ∈ table, ce.name ≠ name) → ∀ (l : Layout) (c : Cmos),
    getOption l (some table) c name = some (.CB_CMOS_OPTION_NOT_FOUND, [])
  set_missing : (∀ ce ∈ table, ce.name ≠ name) → ∀ (l : Layout) (c : Cmos) value,
    setOption l (some table) c name value = some (.CB_CMOS_OPTION_NOT_FOUND, c)

/-- Every entry whose name starts with the requested name, or with as much of it as is compared,
has that name, or stands behind an entry that has it. -/
def Unshadowed (table : List CmosEntry) (name : List (BitVec 8)) : Prop :=
  ∀ before ce after, table = before ++ ce :: after →
    name.take CMOS_MAX_NAME_LENGTH <+: ce.name → ce.name ≠ name → ∃ e ∈ before, e.name = name

/-! ### The search -/

/-- The entry that is found is the first one that starts with the name. -/
lemma findEntry_eq_some : findEntry table name = some ce ↔
    name.take CMOS_MAX_NAME_LENGTH <+: ce.name ∧ ∃ before after, table = before ++ ce :: after ∧
      ∀ e ∈ before, ¬ name.take CMOS_MAX_NAME_LENGTH <+: e.name := by
  rw [findEntry, List.find?_eq_some_iff_append]
  simp only [List.isPrefixOf_iff_prefix, Bool.not_eq_true', Bool.eq_false_iff, ne_eq]

lemma findEntry_eq_none : findEntry table name = none ↔
    ∀ ce ∈ table, ¬ name.take CMOS_MAX_NAME_LENGTH <+: ce.name := by
  rw [findEntry, List.find?_eq_none]
  simp only [List.isPrefixOf_iff_prefix]

lemma getOption_of_none (h : findEntry table name = none) :
    getOption l (some table) c name = some (.CB_CMOS_OPTION_NOT_FOUND, []) := by
  simp only [getOption, h]

lemma setOption_of_none (h : findEntry table name = none) :
    setOption l (some table) c name value = some (.CB_CMOS_OPTION_NOT_FOUND, c) := by
  simp only [setOption, h]

/-- An entry with exactly the requested name starts with it. -/
lemma take_prefix_self : name.take CMOS_MAX_NAME_LENGTH <+: name :=
  List.take_prefix _ name

/-- For every table and every name, exactly the named option is used, if and only if no entry with
another name that starts with the requested one comes first. -/
theorem options_exact_iff (table : List CmosEntry) (name : List (BitVec 8)) :
    Exact table name ↔ Unshadowed table name := by
  constructor
  · intro h before ce after hsplit hstarts hother
    by_contra hnone
    have hmatch : (name.take CMOS_MAX_NAME_LENGTH).isPrefixOf ce.name = true :=
      List.isPrefixOf_iff_prefix.2 hstarts
    have hhere : findEntry (ce :: after) name = some ce := by
      rw [findEntry, List.find?_cons]
      simp only [hmatch]
    have hfind : findEntry table name = (findEntry before name).or (some ce) := by
      rw [hsplit, ← hhere]
      exact List.find?_append
    cases hbefore : findEntry before name with
    | none =>
      rw [hbefore, Option.none_or] at hfind
      exact hother (h.entry ce hfind).2
    | some e =>
      rw [hbefore, Option.some_or] at hfind
      exact hnone ⟨e, List.mem_of_find?_eq_some hbefore, (h.entry e hfind).2⟩
  · intro h
    have hmissing (habsent : ∀ ce ∈ table, ce.name ≠ name) : findEntry table name = none := by
      rw [findEntry_eq_none]
      intro ce hce hstarts
      obtain ⟨before, after, hsplit⟩ := List.append_of_mem hce
      obtain ⟨e, he, hname⟩ := h before ce after hsplit hstarts (habsent ce hce)
      refine habsent e ?_ hname
      rw [hsplit]
      exact List.mem_append_left _ he
    refine ⟨?_, fun habsent l c => getOption_of_none (hmissing habsent),
      fun habsent l c value => setOption_of_none (hmissing habsent)⟩
    intro ce hfind
    obtain ⟨hstarts, before, after, hsplit, hbefore⟩ := findEntry_eq_some.1 hfind
    refine ⟨?_, ?_⟩
    · rw [hsplit]
      exact List.mem_append_right _ List.mem_cons_self
    · by_contra hother
      obtain ⟨e, he, hname⟩ := h before ce after hsplit hstarts hother
      refine hbefore e he ?_
      rw [hname]
      exact take_prefix_self

/-- A request for `ab` with an option `abc` in front of the option `ab`. -/
theorem options_not_exact :
    ¬ Exact [⟨400, 4, 0x65, [0x61, 0x62, 0x63]⟩, ⟨408, 4, 0x65, [0x61, 0x62]⟩] [0x61, 0x62] := by
  intro h
  exact absurd (h.entry ⟨400, 4, 0x65, [0x61, 0x62, 0x63]⟩ rfl).2 (by decide)

end ApuBios.CmosOption
