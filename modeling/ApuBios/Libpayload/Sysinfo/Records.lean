import ApuBios.Libpayload.Sysinfo.Basic
import ApuBios.Library.CString

/-!
# The records that a payload reads

Records that the firmware has written are read one by one (`Parses`). After those of a board, the
payload knows what the board has told (`parses_additions`).
-/

namespace ApuBios.Sysinfo

open Mem CorebootTable

variable {m f f' : Mem} {config : Config} {info : SysInfo} {p q n header addr tag size : ℕ}
  {a : Addition} {as bs : List Addition} {ranges : List (ℕ × ℕ × ℕ)}

/-! ### Records in memory -/

/-- What the caller has stored into the record is in memory. -/
def Recorded (f : Mem) (p : ℕ) (a : Addition) : Prop :=
  ∃ m, ∀ x, p ≤ x → x < p + a.size → f x = a.write m p x

/-- The records lie one behind the other. -/
def Laid (f : Mem) : ℕ → List Addition → Prop
  | _, [] => True
  | p, a :: as => Recorded f p a ∧ Laid f (p + a.size) as

lemma sizes_cons : sizes (a :: as) = a.size + sizes as := List.sum_cons

lemma laid_append : Laid f p (as ++ bs) ↔ Laid f p as ∧ Laid f (p + sizes as) bs := by
  induction as generalizing p with
  | nil => simp [Laid, sizes]
  | cons a as ih => simp only [List.cons_append, Laid, ih, sizes_cons, and_assoc, Nat.add_assoc]

lemma laid_of_recorded
    (h : ∀ i (hi : i < as.length), Recorded f (p + sizes (as.take i)) as[i]) : Laid f p as := by
  induction as generalizing p with
  | nil => trivial
  | cons a as ih =>
    refine ⟨h 0 (Nat.succ_pos _), ih fun i hi => ?_⟩
    have hnext := h (i + 1) (Nat.succ_lt_succ hi)
    rwa [List.take_succ_cons, sizes_cons, ← Nat.add_assoc] at hnext

lemma Recorded.recordSize (h : Recorded f p a) : recordSize f p = a.size := by
  obtain ⟨m, h⟩ := h
  have hsize : 8 ≤ a.size := a.sizeOfRecord_le
  rw [← a.size_eq m p]
  exact readLE_congr fun x hx hx' => h x (by omega) (by omega)

lemma Laid.congr (h : Laid f p as) (heq : ∀ x, p ≤ x → x < p + sizes as → f' x = f x) :
    Laid f' p as := by
  induction as generalizing p with
  | nil => trivial
  | cons a as ih =>
    rw [sizes_cons] at heq
    obtain ⟨⟨m, hrecorded⟩, hrest⟩ := h
    refine ⟨⟨m, fun x hx hx' => ?_⟩, ih hrest fun x hx hx' => heq x (by omega) (by omega)⟩
    rw [heq x hx (by omega), hrecorded x hx hx']

/-! ### Tables in memory -/

/-- A table that the payload accepts. -/
structure Tabled (f : Mem) (header : ℕ) (as : List Addition) : Prop where
  signature : hasSignature f header
  headerBytes : headerBytes f header = 24
  bytes : tableBytes f header = sizes as
  entries : tableEntries f header = as.length
  checksums : Libc.checksumsMatch f header
  laid : Laid f (lbFirstRecord header) as

lemma hasSignature_congr (h : ∀ x, p ≤ x → x < p + 4 → f' x = f x) :
    hasSignature f' p = hasSignature f p := by
  rw [hasSignature, hasSignature, h p le_rfl (by omega), h (p + 1) (by omega) (by omega),
    h (p + 2) (by omega) (by omega), h (p + 3) (by omega) (by omega)]

/-- A finished table. -/
lemma tabled_writeTable (hfits : lbFirstRecord (lbTableInit m addr).2 + sizes as ≤ 2 ^ 32)
    (hsmall : sizes as ≤ 65536) : Tabled (writeTable m addr as) (lbTableInit m addr).2 as := by
  have hbytes := tableBytes_writeTable hfits
  have hstart := (writeTable_frame hfits).1
  have hsignature : ∀ x ≤ 3, writeTable m addr as ((lbTableInit m addr).2 + x) =
      ([0x4c, 0x42, 0x49, 0x4f] : List UInt8).getD x 0 := fun x hx => by
    rw [hstart _ (by omega), lbTableInit]
    dsimp only
    rw [writeLE_frame (by omega), writeLE_frame (by omega), writeLE_frame (by omega),
      writeLE_frame (by omega), writeLE_frame (by omega),
      writeBytes_read (by simp only [List.length_cons, List.length_nil]; omega),
      List.getD_eq_getElem]
  have h0 := hsignature 0 (by decide)
  have h1 := hsignature 1 (by decide)
  have h2 := hsignature 2 (by decide)
  have h3 := hsignature 3 (by decide)
  refine ⟨?_, ?_, hbytes, ?_, Libc.checksumsMatch_writeTable hfits hsmall, ?_⟩
  · rw [Nat.add_zero] at h0
    rw [hasSignature, h0, h1, h2, h3]
    rfl
  · have hinit : headerBytes (lbTableInit m addr).1 (lbTableInit m addr).2 = 24 := by
      rw [headerBytes, lbTableInit]
      dsimp only
      rw [readLE_writeLE_disjoint (by omega), readLE_writeLE_disjoint (by omega),
        readLE_writeLE_disjoint (by omega), readLE_writeLE_disjoint (by omega)]
      exact readLE_writeLE (by decide)
    rw [← hinit]
    exact readLE_congr fun x _ hx => hstart x (by omega)
  · exact tableEntries_writeTable hfits
  · refine laid_of_recorded fun i hi => ?_
    obtain ⟨m', heq⟩ := build_record hfits hi
    refine ⟨m', fun x hx hx' => ?_⟩
    rw [← heq]
    refine writeTable_records hfits hi ((Nat.le_add_right _ _).trans hx) ?_
    rwa [List.take_succ_eq_append_getElem hi, sizes_append, sizes_singleton, ← Nat.add_assoc]

lemma Tabled.congr (h : Tabled f header as) (hsmall : sizes as ≤ 65536)
    (heq : ∀ x, header ≤ x → x < header + 24 + sizes as → f' x = f x) : Tabled f' header as := by
  have hbytes : tableBytes f' header = tableBytes f header :=
    readLE_congr fun x hx hx' => heq x (by omega) (by omega)
  refine ⟨?_, ?_, hbytes.trans h.bytes, ?_, ?_, ?_⟩
  · rw [hasSignature_congr fun x hx hx' => heq x hx (by omega)]
    exact h.signature
  · rw [← h.headerBytes]
    exact readLE_congr fun x hx hx' => heq x (by omega) (by omega)
  · rw [← h.entries]
    exact readLE_congr fun x hx hx' => heq x (by omega) (by omega)
  · have hbytes := h.bytes
    rw [Libc.checksumsMatch_congr (hbytes.trans_le hsmall) fun x hx hx' => heq x hx (by omega)]
    exact h.checksums
  · have hfirst : lbFirstRecord header = header + 24 := rfl
    exact h.laid.congr fun x hx hx' => heq x (by omega) (by omega)

/-! ### Records that are read -/

/-- The loop over the records reads these ones. -/
def Parses (f : Mem) (config : Config) (p : ℕ) (as : List Addition) (info info' : SysInfo) : Prop :=
  ∀ forward n, parseRecords f config forward (as.length + n) p info =
    parseRecords f config forward n (p + sizes as) info'

section Parses

variable {info₁ info₂ : SysInfo} {s : List UInt8}

lemma parses_nil : Parses f config p [] info info := fun forward n => by
  rw [List.length_nil, Nat.zero_add]
  rfl

lemma Parses.append (h : Parses f config p as info info₁)
    (h' : Parses f config (p + sizes as) bs info₁ info₂) : Parses f config p (as ++ bs) info info₂ := by
  intro forward n
  rw [List.length_append, Nat.add_assoc, h, h', sizes_append, Nat.add_assoc]

lemma parses_singleton (h : Recorded f p a) (htag : recordTag f p ≠ CB_TAG_FORWARD)
    (hinfo : cbParseRecord f config p info = info₁) : Parses f config p [a] info info₁ := by
  intro forward n
  rw [List.length_singleton, Nat.add_comm, parseRecords, if_neg htag, h.recordSize, hinfo,
    sizes_singleton]

lemma Parses.cons (h : Parses f config p [a] info info₁)
    (hrest : Parses f config (p + a.size) as info₁ info₂) : Parses f config p (a :: as) info info₂ := by
  rw [← sizes_singleton] at hrest
  exact h.append hrest

/-- The tag is that of the record, and the other members are as they were stored. -/
lemma Recorded.fixed {body : Mem → ℕ → Mem} {hle hlt} {hbody : Inside body size}
    (h : Recorded f p (fixedRecord tag size body hle hlt hbody)) (htag : tag < 2 ^ 32) :
    recordTag f p = tag ∧ ∃ m, ∀ x, p + 8 ≤ x → x < p + size → f x = body m p x := by
  obtain ⟨m, h⟩ := h
  have hsize : 8 ≤ size := hle
  have hrecord : sizeOfRecord = 8 := rfl
  change ∀ x, p ≤ x → x < p + size → f x = body (setSize (setTag m p tag) p size) p x at h
  refine ⟨?_, _, fun x hx hx' => h x (by omega) hx'⟩
  have hread : readLE (setSize (setTag m p tag) p size) p 4 = tag := by
    rw [setSize, readLE_writeLE_disjoint (by omega)]
    exact readLE_writeLE htag
  rw [← hread]
  exact readLE_congr fun x hx hx' => by rw [h x hx (by omega), hbody _ _ x (by omega)]

/-- A pointer to the string is remembered. -/
lemma Recorded.string {hs} (h : Recorded f p (lbString tag s hs)) (htag : tag < 2 ^ 32) :
    recordTag f p = tag ∧ Holds f (cbString p) (cString s) := by
  obtain ⟨htag, m, hbody⟩ := h.fixed htag
  have hround := (roundedSize_bounds (n := 8 + s.length + 1) (by omega)).1
  refine ⟨htag, holds_writeBytes.congr fun x hx hx' => hbody x hx ?_⟩
  rw [length_cString, cbString] at hx'
  omega

lemma Recorded.cbmem {cbmemAddr : ℕ} (h : Recorded f p (cbmemRef tag cbmemAddr)) (htag : tag < 2 ^ 32)
    (haddr : cbmemAddr < 2 ^ 32) : recordTag f p = tag ∧ cbmemTab f p = cbmemAddr := by
  obtain ⟨htag, m, hbody⟩ := h.fixed htag
  refine ⟨htag, ?_⟩
  have hread : readLE f (p + 8) 8 = cbmemAddr := by
    rw [readLE_congr fun x hx hx' => hbody x hx (by omega)]
    exact readLE_writeLE (haddr.trans (by decide))
  rw [cbmemTab, hread, Nat.mod_eq_of_lt haddr]

lemma Recorded.mainboard {vendor partNumber : List UInt8} {hs}
    (h : Recorded f p (lbMainboard vendor partNumber hs)) (hshort : vendor.length < 255) :
    recordTag f p = LB_TAG_MAINBOARD ∧ Holds f (cbMbVendorString f p) (cString vendor) ∧
      Holds f (cbMbPartString f p) (cString partNumber) := by
  obtain ⟨htag, m, hbody⟩ := h.fixed (by decide)
  have hround := (roundedSize_bounds
    (n := 12 + vendor.length + 1 + partNumber.length + 1) (by omega)).1
  have hvendor := length_cString vendor
  have hpart := length_cString partNumber
  rw [Nat.mod_eq_of_lt (by omega)] at hbody
  dsimp only at hbody
  have hzero : f (p + 8) = 0 := by
    rw [hbody _ le_rfl (by omega), writeBytes_frame (by omega), writeBytes_frame (by omega),
      writeLE_frame (by omega), writeLE, if_pos (by omega)]
    simp
  have hidx : (f (p + 9)).toNat = vendor.length + 1 := by
    rw [hbody _ (by omega) (by omega), writeBytes_frame (by omega), writeBytes_frame (by omega),
      writeLE, if_pos (by omega)]
    simp
    omega
  rw [cbMbVendorString, cbMbPartString, hzero, hidx]
  refine ⟨htag, ?_, ?_⟩
  · have hheld : Holds (writeBytes (writeLE (writeLE m (p + 8) 1 0) (p + 9) 1 (vendor.length + 1))
        (p + 10) (cString vendor)) (p + 10) (cString vendor) := holds_writeBytes
    change Holds f (p + 10) _
    refine hheld.congr fun x hx hx' => ?_
    rw [hbody x (by omega) (by omega), writeBytes_frame (by omega)]
  · refine Holds.congr holds_writeBytes fun x hx hx' => hbody x (by omega) (by omega)

/-! ### The memory map -/

lemma cbUnpack64_eq (m : Mem) (p : ℕ) : cbUnpack64 m p = readLE m p 8 := by
  have hlow : readLE m p 4 < 2 ^ 32 := readLE_lt
  have hhigh : readLE m (p + 4) 4 <<< 32 = 2 ^ 32 * readLE m (p + 4) 4 := by
    rw [Nat.shiftLeft_eq, Nat.mul_comm]
  rw [cbUnpack64, hhigh, ← Nat.two_pow_add_eq_or_of_lt hlow]
  simp only [readLE, Nat.add_assoc, Nat.reduceAdd]
  omega

/-- A range, as it was packed. -/
structure RangeAt (f : Mem) (p : ℕ) (r : ℕ × ℕ × ℕ) : Prop where
  start : readLE f p 8 = r.1
  size : readLE f (p + 8) 8 = r.2.1
  type : readLE f (p + 16) 4 = r.2.2

lemma writeRanges_rangeAt {mem : ℕ} (lbR : ℕ) (hlbR : mem + 8 ≤ lbR)
    (hpacked : ∀ r ∈ ranges, r.1 < 2 ^ 64 ∧ r.2.1 < 2 ^ 64 ∧ r.2.2 < 2 ^ 32) {i : ℕ}
    (hi : i < ranges.length) :
    RangeAt (writeRanges m mem lbR ranges) (lbR + 20 * i) ranges[i] := by
  induction ranges generalizing m lbR i with
  | nil => cases hi
  | cons r ranges ih =>
    obtain ⟨hr, hrest⟩ := List.forall_mem_cons.1 hpacked
    cases i with
    | zero =>
      have hframe : ∀ p n, lbR ≤ p → p + n ≤ lbR + 20 →
          readLE (writeRanges m mem lbR (r :: ranges)) p n =
            readLE (writeLE (writeLE (writeLE m lbR 8 r.1) (lbR + 8) 8 r.2.1) (lbR + 16) 4 r.2.2)
              p n := by
        intro p n hp hn
        rw [writeRanges]
        refine readLE_congr fun x hx hx' => ?_
        rw [writeRanges_frame (by omega) (by omega), setSize, writeLE_frame (by omega)]
      refine ⟨?_, ?_, ?_⟩
      · rw [Nat.mul_zero, Nat.add_zero, hframe _ _ le_rfl (by omega),
          readLE_writeLE_disjoint (by omega), readLE_writeLE_disjoint (by omega)]
        exact readLE_writeLE hr.1
      · rw [Nat.mul_zero, Nat.add_zero, hframe _ _ (by omega) (by omega),
          readLE_writeLE_disjoint (by omega)]
        exact readLE_writeLE hr.2.1
      · rw [Nat.mul_zero, Nat.add_zero, hframe _ _ (by omega) (by omega)]
        exact readLE_writeLE hr.2.2
    | succ i =>
      rw [show lbR + 20 * (i + 1) = lbR + 20 + 20 * i by omega]
      exact ih _ (by omega) hrest (Nat.lt_of_succ_lt_succ hi)

lemma Recorded.memory {hlen} (h : Recorded f p (lbMemory ranges hlen))
    (hpacked : ∀ r ∈ ranges, r.1 < 2 ^ 64 ∧ r.2.1 < 2 ^ 64 ∧ r.2.2 < 2 ^ 32) :
    recordTag f p = LB_TAG_MEMORY ∧ memRangeCount f p = ranges.length ∧
      ∀ i (hi : i < ranges.length), RangeAt f (memRangePtr p i) ranges[i] := by
  have hsize := h.recordSize
  obtain ⟨m, h⟩ := h
  change ∀ x, p ≤ x → x < p + (sizeOfRecord + 20 * ranges.length) → f x =
    writeRanges (setSize (setTag m p LB_TAG_MEMORY) p sizeOfRecord) p (p + 8) ranges x at h
  change CorebootTable.recordSize f p = sizeOfRecord + 20 * ranges.length at hsize
  have hrecord : sizeOfRecord = 8 := rfl
  refine ⟨?_, ?_, fun i hi => ?_⟩
  · have hread : readLE (setSize (setTag m p LB_TAG_MEMORY) p sizeOfRecord) p 4 = LB_TAG_MEMORY := by
      rw [setSize, readLE_writeLE_disjoint (by omega)]
      exact readLE_writeLE (by decide)
    rw [← hread]
    refine readLE_congr fun x hx hx' => ?_
    rw [h x hx (by omega), writeRanges_frame (by omega) (by omega)]
  · rw [memRangeCount, hsize, Word.sub_eq (by omega) (by omega)]
    omega
  · obtain ⟨hstart, hlong, htype⟩ := writeRanges_rangeAt
      (m := setSize (setTag m p LB_TAG_MEMORY) p sizeOfRecord) (p + 8) le_rfl hpacked hi
    have hsame : ∀ q n, p + 8 + 20 * i ≤ q → q + n ≤ p + 8 + 20 * i + 20 → readLE f q n = readLE
        (writeRanges (setSize (setTag m p LB_TAG_MEMORY) p sizeOfRecord) p (p + 8) ranges) q n :=
      fun q n hq hn => readLE_congr fun x hx hx' => h x (by omega) (by omega)
    rw [memRangePtr]
    exact ⟨(hsame _ _ le_rfl (by omega)).trans hstart, (hsame _ _ (by omega) (by omega)).trans hlong,
      (hsame _ _ (by omega) (by omega)).trans htype⟩

/-- What the payload takes of a range. -/
def shown (config : Config) (r : ℕ × ℕ × ℕ) : Option Memrange :=
  if config.memmapRamOnly ∧ r.2.2 ≠ CB_MEM_RAM then none else some ⟨r.1, r.2.1, r.2.2⟩

lemma RangeAt.memrangeOf {r : ℕ × ℕ × ℕ} (h : RangeAt f p r) :
    memrangeOf f config p = shown config r := by
  rw [Sysinfo.memrangeOf, h.type, cbUnpack64_eq, cbUnpack64_eq, h.start, h.size, shown]

lemma filterMap_range {α β : Type} {l : List α} {g : α → Option β} {h : ℕ → Option β}
    (heq : ∀ i (hi : i < l.length), h i = g l[i]) : (List.range l.length).filterMap h = l.filterMap g := by
  induction l generalizing h with
  | nil => rfl
  | cons x l ih =>
    have hrest := ih (h := fun i => h (i + 1)) fun i hi => heq (i + 1) (Nat.succ_lt_succ hi)
    rw [List.length_cons, List.range_succ_eq_map, List.filterMap_cons, List.filterMap_cons,
      List.filterMap_map, heq 0 (Nat.succ_pos _)]
    simp only [List.getElem_cons_zero, ← hrest]
    rfl

lemma cbParseMemory_eq (hcount : memRangeCount f p = ranges.length)
    (h : ∀ i (hi : i < ranges.length), RangeAt f (memRangePtr p i) ranges[i]) :
    cbParseMemory f config p info =
      { info with memrange := (ranges.take SYSINFO_MAX_MEM_RANGES).filterMap (shown config) } := by
  have hlen : (ranges.take SYSINFO_MAX_MEM_RANGES).length = min ranges.length SYSINFO_MAX_MEM_RANGES := by
    rw [List.length_take, Nat.min_comm]
  rw [cbParseMemory, hcount, ← hlen, filterMap_range fun i hi => ?_]
  rw [List.getElem_take]
  rw [hlen] at hi
  exact (h i (by omega)).memrangeOf

/-! ### The records of a board -/

section Board

variable {b : Board}

/-- Of what may be absent: what is known if it is there, and otherwise. -/
def Told {α : Type} (known : α → Prop) (otherwise : Prop) : Option α → Prop
  | none => otherwise
  | some x => known x

/-- What the payload does with the records of the firmware. -/
def handlers (f : Mem) (config : Config) (p : ℕ) : List (ℕ × (SysInfo → SysInfo)) :=
  [(LB_TAG_MEMORY, cbParseMemory f config p),
    (LB_TAG_MAINBOARD, fun info => { info with mainboard := p, tstampTable := cbmemTab f p }),
    (LB_TAG_VERSION, fun info => { info with cbVersion := cbString p }),
    (LB_TAG_EXTRA_VERSION, fun info => { info with extraVersion := cbString p }),
    (LB_TAG_BUILD, fun info => { info with build := cbString p }),
    (LB_TAG_COMPILE_TIME, fun info => { info with compileTime := cbString p }),
    (LB_TAG_COMPILE_BY, fun info => { info with compileBy := cbString p }),
    (LB_TAG_COMPILE_HOST, fun info => { info with compileHost := cbString p }),
    (LB_TAG_COMPILE_DOMAIN, fun info => { info with compileDomain := cbString p }),
    (LB_TAG_SERIAL, fun info => { info with serial := p }),
    (LB_TAG_CONSOLE, id),
    (LB_TAG_TIMESTAMPS, fun info => { info with tstampTable := cbmemTab f p }),
    (LB_TAG_CBMEM_CONSOLE, fun info => { info with cbmemCons := cbmemTab f p }),
    (LB_TAG_ACPI_GNVS, fun info => { info with acpiGnvs := cbmemTab f p }),
    (LB_TAG_CMOS_OPTION_TABLE, fun info => if config.nvram then { info with optionTable := p } else info)]

variable {g : SysInfo → SysInfo}

lemma tag_handled (hmem : (tag, g) ∈ handlers f config p) : tag < 2 ^ 32 ∧ tag ≠ CB_TAG_FORWARD := by
  have hall : ∀ x ∈ handlers f config p, x.1 < 2 ^ 32 ∧ x.1 ≠ CB_TAG_FORWARD := by
    simp only [handlers, List.forall_mem_cons, List.not_mem_nil]
    simp [LB_TAG_MEMORY, LB_TAG_MAINBOARD, LB_TAG_VERSION, LB_TAG_EXTRA_VERSION, LB_TAG_BUILD,
      LB_TAG_COMPILE_TIME, LB_TAG_COMPILE_BY, LB_TAG_COMPILE_HOST, LB_TAG_COMPILE_DOMAIN, LB_TAG_SERIAL,
      LB_TAG_CONSOLE, LB_TAG_TIMESTAMPS, LB_TAG_CBMEM_CONSOLE, LB_TAG_ACPI_GNVS, LB_TAG_CMOS_OPTION_TABLE,
      CB_TAG_FORWARD]
  exact hall _ hmem

lemma cbParseRecord_handled (htag : recordTag f p = tag) (hmem : (tag, g) ∈ handlers f config p) :
    cbParseRecord f config p info = g info := by
  have hall : ∀ x ∈ handlers f config p, recordTag f p = x.1 →
      cbParseRecord f config p info = x.2 info := by
    simp only [handlers, List.forall_mem_cons, List.not_mem_nil, cbParseRecord]
    refine ⟨?_, ?_, ?_, ?_, ?_, ?_, ?_, ?_, ?_, ?_, ?_, ?_, ?_, ?_, ?_, fun _ h => by cases h⟩ <;>
      intro hread <;> rw [hread] <;>
      simp [LB_TAG_MEMORY, LB_TAG_MAINBOARD, LB_TAG_VERSION, LB_TAG_EXTRA_VERSION, LB_TAG_BUILD,
      LB_TAG_COMPILE_TIME, LB_TAG_COMPILE_BY, LB_TAG_COMPILE_HOST, LB_TAG_COMPILE_DOMAIN, LB_TAG_SERIAL,
      LB_TAG_CONSOLE, LB_TAG_TIMESTAMPS, LB_TAG_CBMEM_CONSOLE, LB_TAG_ACPI_GNVS, LB_TAG_CMOS_OPTION_TABLE,
      CB_TAG_MEMORY, CB_TAG_SERIAL, CB_TAG_VERSION, CB_TAG_EXTRA_VERSION, CB_TAG_BUILD,
      CB_TAG_COMPILE_TIME, CB_TAG_COMPILE_BY, CB_TAG_COMPILE_HOST, CB_TAG_COMPILE_DOMAIN, CB_TAG_COMPILER,
      CB_TAG_LINKER, CB_TAG_ASSEMBLER, CB_TAG_CMOS_OPTION_TABLE, CB_TAG_OPTION_CHECKSUM,
      CB_TAG_FRAMEBUFFER, CB_TAG_MAINBOARD, CB_TAG_TIMESTAMPS, CB_TAG_CBMEM_CONSOLE, CB_TAG_MRC_CACHE,
      CB_TAG_ACPI_GNVS, CB_TAG_X86_ROM_MTRR, cbParseTstamp]
  exact hall _ hmem htag

lemma parses_handled (h : Recorded f p a) (htag : recordTag f p = tag)
    (hmem : (tag, g) ∈ handlers f config p) : Parses f config p [a] info (g info) :=
  parses_singleton h (by rw [htag]; exact (tag_handled hmem).2) (cbParseRecord_handled htag hmem)

lemma parses_optionRecords (info : SysInfo) (h : Laid f p b.optionRecords) :
    ∃ o, Parses f config p b.optionRecords info { info with optionTable := o } ∧
      Told (Holds f o) (o = info.optionTable) (if config.nvram then b.optionTable else none) := by
  rw [Board.optionRecords] at h ⊢
  split at h
  next hnone => exact ⟨_, parses_nil, by rw [hnone, ite_self]; rfl⟩
  next bytes hsome =>
    obtain ⟨hrecorded, -⟩ := h
    have hlong : 8 ≤ bytes.length := (b.isRecord bytes hsome).1
    have hheld : Holds f p bytes ∧ recordTag f p = LB_TAG_CMOS_OPTION_TABLE := by
      obtain ⟨m, hrecord⟩ := hrecorded
      refine ⟨Holds.congr holds_writeBytes fun x hx hx' => hrecord x hx hx', ?_⟩
      rw [← b.isOptionTable bytes hsome]
      refine readLE_shift fun i hi => ?_
      rw [hrecord _ (Nat.le_add_right p i) (by change _ < p + bytes.length; omega)]
      change writeBytes m p bytes (p + i) = _
      rw [writeBytes_read (by omega), writeBytes_read (by omega)]
    have hparse : Parses f config p _ info
        (if config.nvram then { info with optionTable := p } else info) :=
      parses_handled (g := fun info => if config.nvram then { info with optionTable := p } else info)
        hrecorded hheld.2 (by simp [handlers])
    cases hnvram : config.nvram with
    | false =>
      rw [hnvram] at hparse
      exact ⟨info.optionTable, hparse, rfl⟩
    | true =>
      rw [hnvram] at hparse
      exact ⟨p, hparse, by rw [if_pos rfl, hsome]; exact hheld.1⟩

/-- What the record of a serial port says. -/
structure SerialAt (f : Mem) (p : ℕ) (s : ℕ × ℕ × ℕ) : Prop where
  type : readLE f (p + 8) 4 = s.1
  baseaddr : readLE f (p + 12) 4 = s.2.1
  baud : readLE f (p + 16) 4 = s.2.2

lemma parses_lbAddConsole {type : ℕ} (h : Recorded f p (lbAddConsole type)) :
    Parses f config p [lbAddConsole type] info info := by
  obtain ⟨htag, -⟩ := h.fixed (by decide)
  exact parses_handled (g := id) h htag (by simp [handlers])

lemma parses_uartFillLb (info : SysInfo) (h : Laid f p b.uartFillLb) :
    ∃ s, Parses f config p b.uartFillLb info { info with serial := s } ∧
      Told (SerialAt f s) (s = info.serial) b.serial := by
  rw [Board.uartFillLb] at h ⊢
  cases hserial : b.serial with
  | none => exact ⟨_, parses_nil, rfl⟩
  | some s =>
    obtain ⟨type, baseaddr, baud⟩ := s
    rw [hserial] at h
    obtain ⟨hrecord, hconsole, -⟩ := h
    obtain ⟨htype, haddr, hbaud⟩ := b.serialWords _ hserial
    obtain ⟨htag, m, hbody⟩ := hrecord.fixed (by decide)
    have hparse : Parses f config p _ info { info with serial := p } :=
      parses_handled (g := fun info => { info with serial := p }) hrecord htag (by simp [handlers])
    refine ⟨p, hparse.cons (parses_lbAddConsole hconsole), ?_, ?_, ?_⟩
    · rw [readLE_congr fun x hx hx' => hbody x (by omega) (by omega),
        readLE_writeLE_disjoint (by omega), readLE_writeLE_disjoint (by omega)]
      exact readLE_writeLE htype
    · rw [readLE_congr fun x hx hx' => hbody x (by omega) (by omega),
        readLE_writeLE_disjoint (by omega)]
      exact readLE_writeLE haddr
    · rw [readLE_congr fun x hx hx' => hbody x (by omega) (by omega)]
      exact readLE_writeLE hbaud

/-- A pointer to the string goes where the tag says. -/
lemma parses_string (config : Config) {g : ℕ → SysInfo → SysInfo} {hs}
    (h : Recorded f p (lbString tag s hs))
    (hmem : (tag, g (cbString p)) ∈ handlers f config p) :
    ∃ v, Holds f v (cString s) ∧ ∀ info, Parses f config p [lbString tag s hs] info (g v info) := by
  obtain ⟨htag, hheld⟩ := h.string (tag_handled hmem).1
  exact ⟨_, hheld, fun info => parses_handled h htag hmem⟩

lemma parses_lbStrings (info : SysInfo) (h : Laid f p b.lbStrings) :
    ∃ v e bu ct cb ch cd, Parses f config p b.lbStrings info
        { info with
          cbVersion := v, extraVersion := e, build := bu, compileTime := ct, compileBy := cb,
          compileHost := ch, compileDomain := cd } ∧
      Holds f v (cString b.version) ∧ Holds f e (cString b.extraVersion) ∧
      Holds f bu (cString b.build) ∧ Holds f ct (cString b.compileTime) ∧
      Holds f cb (cString b.compileBy) ∧ Holds f ch (cString b.compileHost) ∧
      Holds f cd (cString b.compileDomain) := by
  simp only [Board.lbStrings, Laid] at h ⊢
  obtain ⟨h₁, h₂, h₃, h₄, h₅, h₆, h₇, -⟩ := h
  obtain ⟨v, s₁, p₁⟩ := parses_string config
    (g := fun v info => { info with cbVersion := v }) h₁ (by simp [handlers])
  obtain ⟨e, s₂, p₂⟩ := parses_string config
    (g := fun v info => { info with extraVersion := v }) h₂ (by simp [handlers])
  obtain ⟨bu, s₃, p₃⟩ := parses_string config
    (g := fun v info => { info with build := v }) h₃ (by simp [handlers])
  obtain ⟨ct, s₄, p₄⟩ := parses_string config
    (g := fun v info => { info with compileTime := v }) h₄ (by simp [handlers])
  obtain ⟨cb, s₅, p₅⟩ := parses_string config
    (g := fun v info => { info with compileBy := v }) h₅ (by simp [handlers])
  obtain ⟨ch, s₆, p₆⟩ := parses_string config
    (g := fun v info => { info with compileHost := v }) h₆ (by simp [handlers])
  obtain ⟨cd, s₇, p₇⟩ := parses_string config
    (g := fun v info => { info with compileDomain := v }) h₇ (by simp [handlers])
  refine ⟨v, e, bu, ct, cb, ch, cd, ?_, s₁, s₂, s₃, s₄, s₅, s₆, s₇⟩
  refine (p₁ info).cons ?_
  refine (p₂ { info with cbVersion := v }).cons ?_
  refine (p₃ { info with cbVersion := v, extraVersion := e }).cons ?_
  refine (p₄ { info with cbVersion := v, extraVersion := e, build := bu }).cons ?_
  refine (p₅ { info with cbVersion := v, extraVersion := e, build := bu, compileTime := ct }).cons ?_
  refine (p₆ { info with
    cbVersion := v, extraVersion := e, build := bu, compileTime := ct, compileBy := cb }).cons ?_
  exact p₇ { info with
    cbVersion := v, extraVersion := e, build := bu, compileTime := ct, compileBy := cb, compileHost := ch }

/-- A section of CBMEM that is not present leaves the pointer as it is. -/
lemma parses_cbmemPointer (config : Config) (info : SysInfo) {o : Option ℕ} {g : ℕ → SysInfo → SysInfo}
    (h : Laid f p (Board.cbmemPointer tag o)) (haddr : ∀ addr ∈ o, addr < 2 ^ 32)
    (hmem : (tag, g (cbmemTab f p)) ∈ handlers f config p) {old : ℕ} (hold : g old info = info) :
    Parses f config p (Board.cbmemPointer tag o) info (g (o.getD old) info) := by
  cases o with
  | none =>
    rw [Option.getD_none, hold]
    exact parses_nil
  | some addr =>
    obtain ⟨hread, htab⟩ := h.1.cbmem (tag_handled hmem).1 (haddr addr rfl)
    have hparse : Parses f config p _ info (g (cbmemTab f p) info) := parses_handled h.1 hread hmem
    rwa [htab] at hparse

lemma parses_lbMemory (config : Config) (info : SysInfo) {hlen} (h : Recorded f p (lbMemory ranges hlen))
    (hpacked : ∀ r ∈ ranges, r.1 < 2 ^ 64 ∧ r.2.1 < 2 ^ 64 ∧ r.2.2 < 2 ^ 32) :
    Parses f config p [lbMemory ranges hlen] info
      { info with memrange := (ranges.take SYSINFO_MAX_MEM_RANGES).filterMap (shown config) } := by
  obtain ⟨htag, hcount, hranges⟩ := h.memory hpacked
  rw [← cbParseMemory_eq hcount hranges]
  exact parses_handled h htag List.mem_cons_self

lemma parses_lbMainboard (info : SysInfo) {vendor partNumber : List UInt8} {hs}
    (h : Recorded f p (lbMainboard vendor partNumber hs)) (hshort : vendor.length < 255) :
    ∃ q, Parses f config p [lbMainboard vendor partNumber hs] info
        { info with mainboard := q, tstampTable := cbmemTab f q } ∧
      Holds f (cbMbVendorString f q) (cString vendor) ∧
      Holds f (cbMbPartString f q) (cString partNumber) := by
  obtain ⟨htag, hvendor, hpart⟩ := h.mainboard hshort
  exact ⟨p, parses_handled
    (g := fun info => { info with mainboard := p, tstampTable := cbmemTab f p }) h htag
      (by simp [handlers]), hvendor, hpart⟩

lemma parses_consoleUsb (config : Config) (info : SysInfo) {usb : Bool}
    (h : Laid f p (if usb then [lbAddConsole 5] else [])) :
    Parses f config p (if usb then [lbAddConsole 5] else []) info info := by
  cases usb with
  | false => exact parses_nil
  | true => exact parses_lbAddConsole h.1

/-- What a payload knows after it has read the table of a board. What the board does not say is as
before, but where there are no timestamps, the pointer to them is taken from the mainboard. -/
structure Knows (f : Mem) (config : Config) (b : Board) (before info : SysInfo) : Prop where
  optionTable : Told (Holds f info.optionTable) (info.optionTable = before.optionTable)
    (if config.nvram then b.optionTable else none)
  memrange : info.memrange = (b.ranges.take SYSINFO_MAX_MEM_RANGES).filterMap (shown config)
  vendor : Holds f (cbMbVendorString f info.mainboard) (cString b.vendor)
  partNumber : Holds f (cbMbPartString f info.mainboard) (cString b.partNumber)
  serial : Told (SerialAt f info.serial) (info.serial = before.serial) b.serial
  version : Holds f info.cbVersion (cString b.version)
  extraVersion : Holds f info.extraVersion (cString b.extraVersion)
  build : Holds f info.build (cString b.build)
  compileTime : Holds f info.compileTime (cString b.compileTime)
  compileBy : Holds f info.compileBy (cString b.compileBy)
  compileHost : Holds f info.compileHost (cString b.compileHost)
  compileDomain : Holds f info.compileDomain (cString b.compileDomain)
  timestamps : info.tstampTable = b.timestamps.getD (cbmemTab f info.mainboard)
  console : info.cbmemCons = b.console.getD before.cbmemCons
  acpiGnvs : info.acpiGnvs = b.acpiGnvs.getD before.acpiGnvs
  others : info.cmosRangeStart = before.cmosRangeStart ∧ info.cmosRangeEnd = before.cmosRangeEnd ∧
    info.cmosChecksumLocation = before.cmosChecksumLocation ∧ info.compiler = before.compiler ∧
    info.linker = before.linker ∧ info.assembler = before.assembler ∧
    info.framebuffer = before.framebuffer ∧ info.header = before.header ∧
    info.x86RomVarMtrrIndex = before.x86RomVarMtrrIndex ∧ info.mrcCache = before.mrcCache

lemma parses_additions (config : Config) (info : SysInfo) (h : Laid f p b.additions)
    (hshort : b.vendor.length < 255) :
    ∃ info', Parses f config p b.additions info info' ∧ Knows f config b info info' := by
  simp only [Board.additions, Board.addCbmemPointers, laid_append] at h
  obtain ⟨⟨⟨⟨⟨⟨hoption, hmemory⟩, hmainboard⟩, huart⟩, husb⟩, hstrings⟩,
    ⟨htimestamps, hconsole⟩, hgnvs⟩ := h
  obtain ⟨o, po, ho⟩ := parses_optionRecords info hoption
  have pm := parses_lbMemory config { info with optionTable := o } hmemory.1 b.packed
  set M := (b.ranges.take SYSINFO_MAX_MEM_RANGES).filterMap (shown config) with hM
  obtain ⟨q, pq, hvendor, hpart⟩ := parses_lbMainboard { info with optionTable := o, memrange := M }
    hmainboard.1 hshort
  obtain ⟨s, ps, hs⟩ := parses_uartFillLb { info with
    optionTable := o, memrange := M, mainboard := q, tstampTable := cbmemTab f q } huart
  have pu := parses_consoleUsb config { info with
    optionTable := o, memrange := M, mainboard := q, tstampTable := cbmemTab f q, serial := s } husb
  obtain ⟨v, e, bu, ct, cb, ch, cd, pv, hv, he, hbu, hct, hcb, hch, hcd⟩ := parses_lbStrings { info with
    optionTable := o, memrange := M, mainboard := q, tstampTable := cbmemTab f q, serial := s } hstrings
  have pt := parses_cbmemPointer config (g := fun v info => { info with tstampTable := v })
    { info with
      optionTable := o, memrange := M, mainboard := q, tstampTable := cbmemTab f q, serial := s,
      cbVersion := v, extraVersion := e, build := bu, compileTime := ct, compileBy := cb,
      compileHost := ch, compileDomain := cd }
    htimestamps (b.pointers _ List.mem_cons_self) (by simp [handlers]) rfl
  have pc := parses_cbmemPointer config (g := fun v info => { info with cbmemCons := v })
    { info with
      optionTable := o, memrange := M, mainboard := q,
      tstampTable := b.timestamps.getD (cbmemTab f q), serial := s,
      cbVersion := v, extraVersion := e, build := bu, compileTime := ct, compileBy := cb,
      compileHost := ch, compileDomain := cd }
    hconsole (b.pointers _ (by simp)) (by simp [handlers]) rfl
  have pg := parses_cbmemPointer config (g := fun v info => { info with acpiGnvs := v })
    { info with
      optionTable := o, memrange := M, mainboard := q,
      tstampTable := b.timestamps.getD (cbmemTab f q), serial := s,
      cbVersion := v, extraVersion := e, build := bu, compileTime := ct, compileBy := cb,
      compileHost := ch, compileDomain := cd, cbmemCons := b.console.getD info.cbmemCons }
    hgnvs (b.pointers _ (by simp)) (by simp [handlers]) rfl
  rw [Board.additions, Board.addCbmemPointers]
  refine ⟨_, (((((po.append pm).append pq).append ps).append pu).append pv).append
    ((pt.append pc).append pg), ?_⟩
  exact ⟨ho, rfl, hvendor, hpart, hs, hv, he, hbu, hct, hcb, hch, hcd, rfl, rfl, rfl,
    ⟨rfl, rfl, rfl, rfl, rfl, rfl, rfl, rfl, rfl, rfl⟩⟩

end Board

end Parses

end ApuBios.Sysinfo
