import ApuBios.Libpayload.Sysinfo.Records

/-!
# From the firmware to the payload

A payload that looks for the coreboot table finds what `write_coreboot_table` has put into it
(`getCorebootInfo_writeCorebootTable`), and in any other memory it does no harm to itself
(`getCorebootInfo_sound`).
-/

namespace ApuBios.Sysinfo

open Mem CorebootTable

variable {m f : Mem} {config : Config} {info : SysInfo} {p n header addr : ℕ} {as : List Addition}

/-! ### The handoff -/

section Handoff

variable {b : Board} {fuel len k lowTableStart lowTableEnd romTableEnd : ℕ}

lemma findHeader_eq (hclear : ∀ i < n, ¬ hasSignature f (p + 16 * i))
    (hfound : hasSignature f (p + 16 * n)) (hn : n < k) : findHeader f p k = some (p + 16 * n) := by
  induction n generalizing p k with
  | zero =>
    cases k with
    | zero => cases hn
    | succ k => exact if_pos hfound
  | succ n ih =>
    cases k with
    | zero => cases hn
    | succ k =>
      have hnext : ∀ i, p + 16 + 16 * i = p + 16 * (i + 1) := fun i => by omega
      have hfirst := hclear 0 (Nat.succ_pos n)
      rw [Nat.mul_zero, Nat.add_zero] at hfirst
      rw [findHeader, if_neg hfirst, ← hnext]
      refine ih (fun i hi => ?_) (by rwa [hnext]) (Nat.lt_of_succ_lt_succ hn)
      rw [hnext]
      exact hclear (i + 1) (Nat.succ_lt_succ hi)

lemma cbParseHeader_of_tabled (hfind : findHeader f addr ((len + 15) / 16) = some header)
    (h : Tabled f header as) (hsize : sizes as ≠ 0) :
    cbParseHeader f config (fuel + 1) addr len info =
      parseRecords f config (fun forward => cbParseHeader f config fuel forward len) as.length
        (lbFirstRecord header) { info with header := header } := by
  simp only [cbParseHeader, hfind, h.bytes, if_neg hsize, h.checksums, h.entries, h.headerBytes,
    not_true_eq_false, if_false]
  rfl

/-- The parser goes on where a forwarder points to. -/
lemma parseRecords_forward {forward : ℕ → SysInfo → Option (ℤ × SysInfo)} {nextHeader : ℕ}
    (h : Recorded f p (lbForward nextHeader)) (hnext : nextHeader < 2 ^ 32) :
    parseRecords f config forward 1 p info = forward nextHeader info := by
  obtain ⟨htag, m, hbody⟩ := h.fixed (by decide)
  have hread : readLE f (p + 8) 8 = nextHeader := by
    rw [readLE_congr fun x hx hx' => hbody x hx (by omega)]
    exact readLE_writeLE (hnext.trans (by decide))
  rw [parseRecords, if_pos (by rw [htag]; rfl), hread, Nat.mod_eq_of_lt hnext]

/-- A header is put at the next multiple of 16. -/
lemma header_bounds (m : Mem) (h : addr + 15 < 2 ^ 32) :
    16 ∣ (lbTableInit m addr).2 ∧ addr ≤ (lbTableInit m addr).2 ∧ (lbTableInit m addr).2 < addr + 16 := by
  have hlt : Word.roundUp addr 4 < addr + 2 ^ 4 := Word.roundUp_lt
  have heq : (lbTableInit m addr).2 = Word.roundUp addr 4 :=
    Word.alignUp_eq (w := 32) (k := 4) (by decide) (by omega)
  rw [heq]
  exact ⟨Word.dvd_roundUp, Word.le_roundUp, hlt⟩

lemma sizes_additions_ne_zero (b : Board) : sizes b.additions ≠ 0 := by
  have hlen := length_le_sizes b.additions
  have hsome : 0 < b.additions.length := by
    simp only [Board.additions, List.length_append, List.length_singleton]
    omega
  omega

/-- A payload that looks for the table finds what the firmware has written, wherever the table is and
whatever is around it, as long as nothing below the forwarder looks like a table. -/
theorem getCorebootInfo_writeCorebootTable (b : Board) (config : Config) (info : SysInfo)
    (hfuel : 2 ≤ fuel) (hlow : 0 < lowTableEnd) (hend : lowTableEnd ≤ 0xff0)
    (hclear : ∀ i, 16 * i < lowTableEnd → ¬ hasSignature m (16 * i)) (haligned : 16 ∣ romTableEnd)
    (hapart : lowTableEnd + 55 ≤ romTableEnd) (hfits : romTableEnd + 24 + sizes b.additions ≤ 2 ^ 32)
    (hsmall : sizes b.additions ≤ 65536) (hshort : b.vendor.length < 255) :
    ∃ info', getCorebootInfo (writeCorebootTable m lowTableStart lowTableEnd romTableEnd b) config fuel
        info = some (0, info') ∧
      info'.header = romTableEnd ∧
      Knows (writeCorebootTable m lowTableStart lowTableEnd romTableEnd b) config b
        { info with x86RomVarMtrrIndex := -1, header := romTableEnd } info' := by
  obtain ⟨fuel, rfl⟩ := Nat.exists_eq_add_of_le' hfuel
  rw [writeCorebootTable, if_pos (.inr (by omega))]
  set low := writeTable m lowTableEnd [lbForward romTableEnd] with hlowTable
  obtain ⟨⟨n, hn⟩, hle, hlt⟩ := header_bounds m (show lowTableEnd + 15 < 2 ^ 32 by omega)
  have hrom : (lbTableInit low romTableEnd).2 = romTableEnd := by
    obtain ⟨⟨k, hk⟩, hle', hlt'⟩ := header_bounds low (show romTableEnd + 15 < 2 ^ 32 by omega)
    omega
  have hforward : sizes [lbForward romTableEnd] = 16 := sizes_singleton _
  have hlowFits : lbFirstRecord (lbTableInit m lowTableEnd).2 + sizes [lbForward romTableEnd] ≤ 2 ^ 32 := by
    rw [hforward, lbFirstRecord, sizeOfHeader]
    omega
  have hhighFits : lbFirstRecord (lbTableInit low romTableEnd).2 + sizes b.additions ≤ 2 ^ 32 := by
    rwa [hrom]
  -- the table leaves the forwarder and what is below it as it is
  have hbelow : ∀ x, x < romTableEnd → writeTable low romTableEnd b.additions x = low x := fun x hx => by
    rw [(writeTable_frame hhighFits).1 x (by omega)]
    exact lbTableInit_frame (.inl (by omega))
  have hlowTabled : Tabled (writeTable low romTableEnd b.additions) (16 * n) [lbForward romTableEnd] := by
    have htabled := tabled_writeTable hlowFits (by omega)
    rw [hn] at htabled
    exact htabled.congr (by omega) fun x hx hx' => hbelow x (by omega)
  have hhighTabled : Tabled (writeTable low romTableEnd b.additions) romTableEnd b.additions := by
    have htabled := tabled_writeTable hhighFits hsmall
    rwa [hrom] at htabled
  have hnone : ∀ i < n, ¬ hasSignature (writeTable low romTableEnd b.additions) (16 * i) := by
    intro i hi
    rw [hasSignature_congr fun x hx hx' => ?_]
    · exact hclear i (by omega)
    · rw [hbelow x (by omega), hlowTable, (writeTable_frame hlowFits).1 x (by omega)]
      exact lbTableInit_frame (.inl (by omega))
  set f := writeTable low romTableEnd b.additions
  have hfindLow : findHeader f 0 ((0x1000 + 15) / 16) = some (16 * n) := by
    have hfind := findHeader_eq (f := f) (p := 0) (n := n) (k := (0x1000 + 15) / 16)
      (by simpa only [Nat.zero_add] using hnone) (by simpa only [Nat.zero_add] using hlowTabled.signature)
      (by omega)
    rwa [Nat.zero_add] at hfind
  have hfindHigh : findHeader f romTableEnd ((0x1000 + 15) / 16) = some romTableEnd :=
    if_pos hhighTabled.signature
  obtain ⟨info', hparses, hknows⟩ := parses_additions config
    { info with x86RomVarMtrrIndex := -1, header := romTableEnd } hhighTabled.laid hshort
  refine ⟨info', ?_, ?_, hknows⟩
  · have hhigh : cbParseHeader f config (fuel + 1) romTableEnd 0x1000
        { info with x86RomVarMtrrIndex := -1, header := 16 * n } = some (1, info') := by
      rw [cbParseHeader_of_tabled hfindHigh hhighTabled (sizes_additions_ne_zero b)]
      exact hparses _ 0
    have hall : cbParseHeader f config (fuel + 2) 0 0x1000 { info with x86RomVarMtrrIndex := -1 } =
        some (1, info') := by
      rw [cbParseHeader_of_tabled hfindLow hlowTabled (by omega)]
      exact (parseRecords_forward hlowTabled.laid.1 (by omega)).trans hhigh
    simp only [getCorebootInfo, hall]
    rfl
  · exact hknows.others.2.2.2.2.2.2.2.1

/-- A board with two ranges of memory and a serial port. -/
def smallBoard : Board where
  optionTable := none
  ranges := [(0, 0xa0000, 1), (0xf0000, 0x10000, 16)]
  vendor := [80, 67]
  partNumber := [97, 112, 117, 49]
  serial := some (1, 0x3f8, 115200)
  consoleUsb := false
  version := [52, 46, 48]
  extraVersion := []
  build := []
  compileTime := []
  compileBy := []
  compileHost := []
  compileDomain := []
  timestamps := none
  console := some 0xdffde000
  acpiGnvs := none
  isRecord := nofun
  isOptionTable := nofun
  fewRanges := by decide
  packed := by decide
  shortNames := by decide
  serialWords := by decide
  pointers := by decide
  shortStrings := by decide

theorem getCorebootInfo_writeCorebootTable_small :
    ∃ info', getCorebootInfo (writeCorebootTable (fun _ => 0) 0 0x500 0xf0000 smallBoard)
        ⟨true, false, false⟩ 2 {} = some (0, info') ∧
      info'.header = 0xf0000 ∧
      Knows (writeCorebootTable (fun _ => 0) 0 0x500 0xf0000 smallBoard) ⟨true, false, false⟩ smallBoard
        { x86RomVarMtrrIndex := -1, header := 0xf0000 } info' :=
  getCorebootInfo_writeCorebootTable smallBoard ⟨true, false, false⟩ {} (by decide) (by decide) (by decide)
    (fun _ _ => Bool.false_ne_true) (by decide) (by decide) (by decide) (by decide) (by decide)

end Handoff

/-! ### Any memory -/

section Any

variable {info' : SysInfo} {ret : ℤ} {fuel len k : ℕ}

/-- What the payload has checked of a table before it reads it. -/
structure Accepted (m : Mem) (header : ℕ) : Prop where
  signature : hasSignature m header
  bytes : tableBytes m header ≠ 0
  checksums : Libc.checksumsMatch m header

/-- The ranges fit into their array, and if a table has been read to its end, it was accepted. -/
def Sound (m : Mem) (r : Option (ℤ × SysInfo)) : Prop :=
  ∀ ret info', r = some (ret, info') →
    info'.memrange.length ≤ SYSINFO_MAX_MEM_RANGES ∧ (ret = 1 → Accepted m info'.header)

lemma findHeader_sound (h : findHeader m p k = some header) : hasSignature m header := by
  induction k generalizing p with
  | zero => cases h
  | succ k ih =>
    rw [findHeader] at h
    split_ifs at h with hfound
    · cases h
      exact hfound
    · exact ih h

/-- The ranges still fit, and the table is the same. -/
def Keeps (info info' : SysInfo) : Prop :=
  info'.memrange.length ≤ SYSINFO_MAX_MEM_RANGES ∧ info'.header = info.header

lemma cbParseMemory_keeps (m : Mem) (config : Config) (p : ℕ) (info : SysInfo) :
    Keeps info (cbParseMemory m config p info) := by
  refine ⟨(List.length_filterMap_le _ _).trans ?_, by rw [cbParseMemory]⟩
  rw [List.length_range]
  exact min_le_right _ _

lemma Keeps.ite {c : Prop} [Decidable c] {i₁ i₂ : SysInfo} (h₁ : Keeps info i₁) (h₂ : Keeps info i₂) :
    Keeps info (if c then i₁ else i₂) := by
  split_ifs
  · exact h₁
  · exact h₂

lemma cbParseRecord_keeps (m : Mem) (config : Config) (p : ℕ)
    (h : info.memrange.length ≤ SYSINFO_MAX_MEM_RANGES) : Keeps info (cbParseRecord m config p info) := by
  rw [cbParseRecord]
  unfold cbParseChecksum cbParseTstamp cbParseX86RomVarMtrr
  refine .ite (cbParseMemory_keeps m config p info) ?_
  iterate 20 refine .ite ⟨h, rfl⟩ ?_
  exact ⟨h, rfl⟩

lemma parseRecords_sound (info : SysInfo) {forward : ℕ → SysInfo → Option (ℤ × SysInfo)}
    (hforward : ∀ addr info, info.memrange.length ≤ SYSINFO_MAX_MEM_RANGES →
      Sound m (forward addr info))
    (h : info.memrange.length ≤ SYSINFO_MAX_MEM_RANGES) (haccepted : Accepted m info.header) :
    Sound m (parseRecords m config forward n p info) := by
  induction n generalizing p info with
  | zero =>
    intro ret info' hres
    cases hres
    exact ⟨h, fun _ => haccepted⟩
  | succ n ih =>
    rw [parseRecords]
    split_ifs
    · exact hforward _ _ h
    · obtain ⟨hlen, hheader⟩ := cbParseRecord_keeps m config p h
      exact ih _ hlen (by rwa [hheader])

lemma cbParseHeader_sound (info : SysInfo) (h : info.memrange.length ≤ SYSINFO_MAX_MEM_RANGES) :
    Sound m (cbParseHeader m config fuel addr len info) := by
  induction fuel generalizing addr info with
  | zero =>
    intro ret info' hres
    cases hres
  | succ fuel ih =>
    rw [cbParseHeader]
    cases hfind : findHeader m addr ((len + 15) / 16) with
    | none =>
      intro ret info' hres
      cases hres
      exact ⟨h, fun hret => absurd hret (by decide)⟩
    | some header =>
      dsimp only
      split_ifs with hbytes hsums
      · intro ret info' hres
        cases hres
        exact ⟨h, fun hret => absurd hret (by decide)⟩
      · exact parseRecords_sound { info with header := header } (fun addr info => ih info) h
          ⟨findHeader_sound hfind, hbytes, hsums⟩
      · intro ret info' hres
        cases hres
        exact ⟨h, fun hret => absurd hret (by decide)⟩

/-- Whatever is in memory, no more ranges are stored than there is room for, and a payload that has
found a table has checked it. -/
theorem getCorebootInfo_sound (h : info.memrange.length ≤ SYSINFO_MAX_MEM_RANGES)
    (hres : getCorebootInfo m config fuel info = some (ret, info')) :
    info'.memrange.length ≤ SYSINFO_MAX_MEM_RANGES ∧ (ret = 0 → Accepted m info'.header) := by
  rw [getCorebootInfo] at hres
  cases hfirst : cbParseHeader m config fuel 0x00000000 0x1000 { info with x86RomVarMtrrIndex := -1 } with
  | none =>
    rw [hfirst] at hres
    cases hres
  | some first =>
    obtain ⟨ret₁, info₁⟩ := first
    have hsound₁ := cbParseHeader_sound { info with x86RomVarMtrrIndex := -1 } h ret₁ info₁ hfirst
    rw [hfirst] at hres
    by_cases hret : ret₁ = 1
    · subst hret
      cases hres
      exact ⟨hsound₁.1, fun _ => hsound₁.2 rfl⟩
    · cases hsecond : cbParseHeader m config fuel 0x000f0000 0x1000 info₁ with
      | none =>
        simp [hret, hsecond] at hres
      | some second =>
        obtain ⟨ret₂, info₂⟩ := second
        have hsound₂ := cbParseHeader_sound info₁ hsound₁.1 ret₂ info₂ hsecond
        simp only [Option.bind_eq_bind, Option.bind_some, hret, ne_eq, not_false_eq_true, if_true,
          hsecond, Option.some.injEq, Prod.mk.injEq] at hres
        obtain ⟨rfl, rfl⟩ := hres
        refine ⟨hsound₂.1, fun hzero => hsound₂.2 ?_⟩
        by_contra hne
        rw [if_neg hne] at hzero
        cases hzero

/-- A table of one record. -/
theorem getCorebootInfo_sound_console :
    ({ x86RomVarMtrrIndex := -1 } : SysInfo).memrange.length ≤ SYSINFO_MAX_MEM_RANGES ∧
      ((0 : ℤ) = 0 → Accepted (writeTable (fun _ => 0) 0 [lbAddConsole 0]) 0) :=
  getCorebootInfo_sound (show ({} : SysInfo).memrange.length ≤ SYSINFO_MAX_MEM_RANGES by decide)
    (show getCorebootInfo (writeTable (fun _ => 0) 0 [lbAddConsole 0]) ⟨true, true, true⟩ 1 {} =
      some (0, { x86RomVarMtrrIndex := -1 }) by decide +kernel)

end Any

end ApuBios.Sysinfo
