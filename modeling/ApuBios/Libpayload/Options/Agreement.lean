import ApuBios.Libpayload.Options.Basic

/-!
# coreboot and libpayload on an option

A payload always refreshes the checksum and masks the value, coreboot does neither always. They
leave the same CMOS if the bytes that they write are the same outside of the stored checksum, and
coreboot leaves a valid checksum.
-/

namespace ApuBios.Options

open CmosOption

variable {l : Layout} {cks : CbCmosChecksum} {table : CbCmosOptionTable} {c c' w : Cmos}
  {addr bit byte length n : ℕ} {name value : List (BitVec 8)} {e : CmosEntry}

/-! ### The stored checksum -/

/-- The byte is one of the stored checksum. -/
def IsChecksum (l : Layout) (addr : BitVec 8) : Prop :=
  addr = BitVec.ofNat 8 l.LB_CKS_LOC ∨ addr = BitVec.ofNat 8 (l.LB_CKS_LOC + 1)

instance (l : Layout) (addr : BitVec 8) : Decidable (IsChecksum l addr) :=
  inferInstanceAs (Decidable (_ ∨ _))

/-- The same outside of the stored checksum. -/
def SameOutside (l : Layout) (c c' : Cmos) : Prop := ∀ addr, ¬IsChecksum l addr → c addr = c' addr

lemma sameOutside_rtcSetChecksum (l : Layout) (c : Cmos) :
    SameOutside l (rtcSetChecksum l c) c := by
  intro addr haddr
  rw [IsChecksum, not_or] at haddr
  rw [rtcSetChecksum, cmosWrite, cmosWrite, Function.update_of_ne haddr.2,
    Function.update_of_ne haddr.1]

lemma SameOutside.symm (h : SameOutside l c c') : SameOutside l c' c :=
  fun addr haddr => (h addr haddr).symm

lemma SameOutside.trans {c'' : Cmos} (h : SameOutside l c c') (h' : SameOutside l c' c'') :
    SameOutside l c c'' := fun addr haddr => (h addr haddr).trans (h' addr haddr)

lemma sameOutside_refreshed (l : Layout) (bit length : ℕ) (c : Cmos) :
    SameOutside l (refreshed l bit length c) c := by
  rw [refreshed]
  split_ifs
  · exact sameOutside_rtcSetChecksum l c
  · exact fun _ _ => rfl

/-- Refreshing leads to the CMOS that is the same outside and valid. -/
lemma rtcSetChecksum_eq_iff :
    rtcSetChecksum l w = c ↔ SameOutside l c w ∧ rtcChecksumValid l c = true := by
  constructor
  · rintro rfl
    exact ⟨sameOutside_rtcSetChecksum l w, rtcChecksumValid_set w⟩
  · rintro ⟨hsame, hvalid⟩
    have hsame' : SameOutside l (rtcSetChecksum l w) c :=
      (sameOutside_rtcSetChecksum l w).trans hsame.symm
    have hvalid' := rtcChecksumValid_set (l := l) w
    have hloc := l.loc_lt
    have hrange : rangeSum l (rtcSetChecksum l w) = rangeSum l c := by
      have := l.range_lt
      have := l.apart
      refine rangeSum_congr fun i hlow hhigh => hsame' _ ?_
      rw [IsChecksum, not_or]
      exact ⟨ofNat_ne (by omega) (by omega) (by omega), ofNat_ne (by omega) hloc (by omega)⟩
    rw [rtcChecksumValid, beq_iff_eq] at hvalid hvalid'
    have hstored : storedSum l (rtcSetChecksum l w) = storedSum l c := by
      rw [← hvalid', hrange, hvalid]
    unfold storedSum at hstored
    funext addr
    by_cases hlow : addr = BitVec.ofNat 8 l.LB_CKS_LOC
    · have := congrArg (fun x : BitVec 16 => (x >>> 8).setWidth 8) hstored
      rw [hlow]
      change cmosRead (rtcSetChecksum l w) l.LB_CKS_LOC = cmosRead c l.LB_CKS_LOC
      simpa only [join_high] using this
    by_cases hhigh : addr = BitVec.ofNat 8 (l.LB_CKS_LOC + 1)
    · have := congrArg (fun x : BitVec 16 => x.setWidth 8) hstored
      rw [hhigh]
      change cmosRead (rtcSetChecksum l w) (l.LB_CKS_LOC + 1) = cmosRead c (l.LB_CKS_LOC + 1)
      simpa only [join_low] using this
    · exact hsame' addr (not_or.mpr ⟨hlow, hhigh⟩)

/-! ### What is asked -/

/-- Both leave the same CMOS. -/
def Agree (l : Layout) (cks : CbCmosChecksum) (table : CbCmosOptionTable) (c : Cmos)
    (name value : List (BitVec 8)) : Prop :=
  ∃ e r c', setOption l (some table.entries) c name value = some (e, c') ∧
    setOptionWith cks table c value name = some (r, c')

/-- coreboot leaves `c'`, and the payload writes `w`. -/
lemma agree_iff_of_eq (hcks : Exports l cks) (hlookup : lookupCmosEntry table name = some e)
    {err : CbErr} (hset : setOption l (some table.entries) c name value = some (err, c'))
    (hset' : setCmosValue c e.bit e.length value = some w) :
    Agree l cks table c name value ↔ SameOutside l c' w ∧ rtcChecksumValid l c' = true := by
  rw [← rtcSetChecksum_eq_iff, Agree]
  have hwith : setOptionWith cks table c value name = some (0, rtcSetChecksum l w) := by
    simp only [setOptionWith, hlookup, hset', Option.map_some, fixOptionsChecksumWith_eq hcks]
  rw [hset, hwith]
  constructor
  · rintro ⟨e', r, c'', h, h'⟩
    rw [(Prod.mk.inj (Option.some.inj h)).2]
    exact (Prod.mk.inj (Option.some.inj h')).2
  · intro h
    exact ⟨err, 0, c', rfl, by rw [h]⟩

/-! ### Entries that are not strings -/

/-- The bits of a value that are in the field. -/
def lowBits (length : ℕ) (b : BitVec 8) : BitVec 8 := b &&& ((1#8 <<< length) - 1)

/-- What a payload writes is there already, or is the stored checksum. -/
def IsThere (l : Layout) (c : Cmos) (e : CmosEntry) (value : List (BitVec 8)) : Prop :=
  if e.length ≤ 8 then
    ∃ b ∈ value.head?, IsChecksum l (BitVec.ofNat 8 (e.bit / 8)) ∨
      cmosRead c (e.bit / 8) =
        withField (cmosRead c (e.bit / 8)) e.bit e.length (lowBits e.length b)
  else
    e.length % 8 = 0 ∧ e.length / 8 ≤ value.length ∧
      SameOutside l c (writeBytes c (e.bit / 8) (value.take (e.length / 8)))

/-- Up to eight bits: the bits of the value beyond the field change nothing, or only a byte of the
stored checksum, and coreboot keeps the checksum. -/
def MatchesBits (l : Layout) (c : Cmos) (e : CmosEntry) (value : List (BitVec 8)) : Prop :=
  (∃ b ∈ value.head?, IsChecksum l (BitVec.ofNat 8 (e.bit / 8)) ∨
    withField (cmosRead c (e.bit / 8)) e.bit e.length b =
      withField (cmosRead c (e.bit / 8)) e.bit e.length (lowBits e.length b)) ∧
  KeepsAt l c e.bit e.length value

/-- Whole bytes: coreboot keeps the checksum, or refuses to write what is there already. -/
def MatchesBytes (l : Layout) (c : Cmos) (e : CmosEntry) (value : List (BitVec 8)) : Prop :=
  if e.bit % 8 = 0 then
    e.length % 8 = 0 ∧ e.length / 8 ≤ value.length ∧ KeepsAt l c e.bit e.length value
  else
    IsThere l c e value

lemma cmosWrite_self (c : Cmos) (addr : ℕ) : cmosWrite c (cmosRead c addr) addr = c :=
  Function.update_eq_self _ _

lemma sameOutside_cmosWrite_iff {b b' : BitVec 8} :
    SameOutside l (cmosWrite c b addr) (cmosWrite c b' addr) ↔
      IsChecksum l (BitVec.ofNat 8 addr) ∨ b = b' := by
  constructor
  · intro h
    by_cases hcks : IsChecksum l (BitVec.ofNat 8 addr)
    · exact .inl hcks
    · have := h _ hcks
      rw [cmosWrite, cmosWrite, Function.update_self, Function.update_self] at this
      exact .inr this
  · rintro (hcks | rfl)
    · intro a ha
      have hne : a ≠ BitVec.ofNat 8 addr := by
        rintro rfl
        exact ha hcks
      rw [cmosWrite, cmosWrite, Function.update_of_ne hne, Function.update_of_ne hne]
    · exact fun _ _ => rfl

lemma setCmosValue_bits (hlength : length ≤ 8) :
    setCmosValue c bit length value = value.head?.map fun b =>
      cmosWrite c (withField (cmosRead c (bit / 8)) bit length (lowBits length b)) (bit / 8) := by
  rw [setCmosValue, if_pos hlength]
  rfl

lemma setCmosValue_bytes (hlength : ¬length ≤ 8) :
    setCmosValue c bit length value = if length % 8 = 0 ∧ length / 8 ≤ value.length then
      some (writeBytes c (bit / 8) (value.take (length / 8))) else none := by
  rw [setCmosValue, if_neg hlength]
  by_cases hmod : length % 8 = 0
  · rw [if_neg (not_not.mpr hmod)]
    by_cases hlt : value.length < length / 8
    · rw [if_pos hlt, if_neg (by omega)]
    · rw [if_neg hlt, if_pos ⟨hmod, by omega⟩]
  · rw [if_pos hmod, if_neg fun h => hmod h.1]

/-- A buffer that a payload does not read past is not refused by it. -/
lemma exists_of_agree (hlookup : lookupCmosEntry table name = some e)
    (h : Agree l cks table c name value) :
    ∃ w, setCmosValue c e.bit e.length value = some w := by
  obtain ⟨_, r, c', -, h⟩ := h
  simp only [setOptionWith, hlookup, Option.map_eq_some_iff] at h
  obtain ⟨w, hw, -⟩ := h
  exact ⟨w, hw⟩

/-- coreboot leaves the CMOS as it is. -/
lemma agree_unchanged_iff (hvalid : rtcChecksumValid l c = true) (hcks : Exports l cks)
    (hlookup : lookupCmosEntry table name = some e) {err : CbErr}
    (hset : setOption l (some table.entries) c name value = some (err, c)) :
    Agree l cks table c name value ↔ IsThere l c e value := by
  have hiff {w : Cmos} (hw : setCmosValue c e.bit e.length value = some w) :
      Agree l cks table c name value ↔ SameOutside l c w := by
    rw [agree_iff_of_eq hcks hlookup hset hw, and_iff_left hvalid]
  rw [IsThere]
  split_ifs with hlength
  · rw [setCmosValue_bits hlength] at hiff
    constructor
    · intro h
      obtain ⟨w, hw⟩ := exists_of_agree hlookup h
      rw [setCmosValue_bits hlength] at hw
      have hsame := (hiff hw).mp h
      obtain ⟨b, hb, rfl⟩ := Option.map_eq_some_iff.mp hw
      refine ⟨b, hb, (sameOutside_cmosWrite_iff (c := c)).mp ?_⟩
      rwa [cmosWrite_self]
    · rintro ⟨b, hb, hthere⟩
      rw [Option.mem_def] at hb
      rw [hb] at hiff
      refine (hiff rfl).mpr ?_
      have := (sameOutside_cmosWrite_iff (c := c)).mpr hthere
      rwa [cmosWrite_self] at this
  · rw [setCmosValue_bytes hlength] at hiff
    constructor
    · intro h
      obtain ⟨w, hw⟩ := exists_of_agree hlookup h
      rw [setCmosValue_bytes hlength] at hw
      have hsame := (hiff hw).mp h
      split_ifs at hw with hdefined
      rw [← Option.some.inj hw] at hsame
      exact ⟨hdefined.1, hdefined.2, hsame⟩
    · rintro ⟨hmod, hle, hsame⟩
      exact (hiff (if_pos ⟨hmod, hle⟩)).mpr hsame

lemma agree_bits_iff (hvalid : rtcChecksumValid l c = true) (hcks : Exports l cks) (hlookup : lookupCmosEntry table name = some e)
    (hfind : findEntry table.entries name = some e) (hstring : e.isString = false)
    (hlength : e.length ≤ 8) :
    Agree l cks table c name value ↔ MatchesBits l c e value := by
  cases value with
  | nil =>
    refine iff_of_false (fun h => ?_) fun h => ?_
    · obtain ⟨w, hw⟩ := exists_of_agree hlookup h
      rw [setCmosValue_bits hlength] at hw
      cases hw
    · obtain ⟨⟨b, hb, -⟩, -⟩ := h
      cases hb
  | cons b bs =>
    have hset : setOption l (some table.entries) c name (b :: bs) = some (.CB_SUCCESS,
        refreshed l e.bit e.length (cmosWrite c
          (withField (cmosRead c (e.bit / 8)) e.bit e.length b) (e.bit / 8))) := by
      rw [setOption_eq hfind hstring, setCmosValue_eq (.inl hlength)
        (by rw [writeValue, if_pos hlength]; rfl)]
      rfl
    have hkeeps : KeepsChecksum l table.entries c (name, b :: bs) ↔
        KeepsAt l c e.bit e.length (b :: bs) := by
      simp [KeepsChecksum, hfind, hstring]
    rw [agree_iff_of_eq hcks hlookup hset (setCmosValue_bits hlength), setOption_valid_iff hvalid hset,
      hkeeps, MatchesBits]
    refine and_congr_left fun _ => ?_
    simp only [List.head?_cons, Option.mem_some, exists_eq_left']
    refine Iff.trans ?_ (sameOutside_cmosWrite_iff (c := c))
    exact ⟨(sameOutside_refreshed l _ _ _).symm.trans, (sameOutside_refreshed l _ _ _).trans⟩

lemma agree_bytes_iff (hvalid : rtcChecksumValid l c = true) (hcks : Exports l cks)
    (hlookup : lookupCmosEntry table name = some e)
    (hfind : findEntry table.entries name = some e) (hstring : e.isString = false)
    (hlength : ¬e.length ≤ 8) :
    Agree l cks table c name value ↔ MatchesBytes l c e value := by
  rw [MatchesBytes]
  split_ifs with hbit
  · by_cases hdefined : e.length % 8 = 0 ∧ e.length / 8 ≤ value.length
    · obtain ⟨hmod, hle⟩ := hdefined
      have hset' := @setCmosValue_bytes c e.bit _ value hlength
      rw [if_pos ⟨hmod, hle⟩] at hset'
      have hwrite : writeValue c e.bit e.length value =
          some (writeBytes c (e.bit / 8) (value.take (e.length / 8))) := by
        rw [writeValue, if_neg hlength, if_neg (by omega)]
      have hset : setOption l (some table.entries) c name value = some (.CB_SUCCESS,
          refreshed l e.bit e.length (writeBytes c (e.bit / 8) (value.take (e.length / 8)))) := by
        rw [setOption_eq hfind hstring, setCmosValue_eq (.inr ⟨hbit, hmod⟩) hwrite]
        rfl
      rw [agree_iff_of_eq hcks hlookup hset hset', setOption_valid_iff hvalid hset,
        and_iff_right (sameOutside_refreshed l _ _ _)]
      simp [KeepsChecksum, hfind, hstring, hmod, hle]
    · refine iff_of_false (fun h => ?_) fun h => hdefined ⟨h.1, h.2.1⟩
      obtain ⟨w, hw⟩ := exists_of_agree hlookup h
      rw [setCmosValue_bytes hlength, if_neg hdefined] at hw
      cases hw
  · have hset : setOption l (some table.entries) c name value =
        some (.CB_CMOS_ACCESS_ERROR, c) := by
      rw [setOption_eq hfind hstring, CmosOption.setCmosValue, if_pos ⟨by omega, .inl hbit⟩]
      rfl
    exact agree_unchanged_iff hvalid hcks hlookup hset

/-! ### Strings -/

/-- A string: coreboot writes nothing behind the entry that is not there, and the last byte of a
shorter string is zero, as coreboot makes it; it keeps the checksum. -/
def MatchesString (l : Layout) (entries : List CmosEntry) (c : Cmos) (e : CmosEntry)
    (name value : List (BitVec 8)) : Prop :=
  e.length / 8 ≤ value.length ∧
    (∃ len ∈ strlen value,
      (len < e.length / 8 → IsChecksum l (BitVec.ofNat 8 (e.bit / 8 + (e.length / 8 - 1))) ∨
        value.getD (e.length / 8 - 1) 0 = 0) ∧
      ∀ i, e.length / 8 ≤ i → i < len → IsChecksum l (BitVec.ofNat 8 (e.bit / 8 + i)) ∨
        value.getD i 0 = cmosRead c (e.bit / 8 + i)) ∧
    KeepsChecksum l entries c (name, value)

/-- A string is in the CMOS, and so is its entry. -/
def StringsFit (entries : List CmosEntry) (name value : List (BitVec 8)) : Prop :=
  ∀ e ∈ findEntry entries name, e.isString = true →
    Admissible e ∧ ∀ len ∈ strlen value, e.bit / 8 + len ≤ 256

lemma sameOutside_iff : SameOutside l c c' ↔
    ∀ i < 256, i ≠ l.LB_CKS_LOC → i ≠ l.LB_CKS_LOC + 1 → cmosRead c i = cmosRead c' i := by
  have hloc := l.loc_lt
  constructor
  · intro h i hi hne hne'
    exact h _ (not_or.mpr ⟨ofNat_ne hi (by omega) hne, ofNat_ne hi hloc hne'⟩)
  · intro h addr haddr
    rw [IsChecksum, not_or] at haddr
    rw [← cmosRead_toNat c, ← cmosRead_toNat c']
    refine h _ addr.isLt (fun heq => haddr.1 ?_) fun heq => haddr.2 ?_
    · rw [← heq, BitVec.ofNat_toNat, BitVec.setWidth_eq]
    · rw [← heq, BitVec.ofNat_toNat, BitVec.setWidth_eq]

lemma isChecksum_ofNat {i : ℕ} (hi : i < 256) :
    IsChecksum l (BitVec.ofNat 8 i) ↔ i = l.LB_CKS_LOC ∨ i = l.LB_CKS_LOC + 1 := by
  have hloc := l.loc_lt
  rw [IsChecksum]
  constructor
  · intro h
    by_contra hne
    rw [not_or] at hne
    exact h.elim (ofNat_ne hi (by omega) hne.1) (ofNat_ne hi hloc hne.2)
  · rintro (rfl | rfl)
    · exact .inl rfl
    · exact .inr rfl

/-- The bytes of a string of length `k` in coreboot, and those of its buffer. -/
lemma sameOutside_withString_iff {k : ℕ} (hn : 0 < n) (hle : n ≤ value.length)
    (hk : k < value.length) (hfits : byte + n ≤ 256) (hfits' : byte + k ≤ 256) :
    SameOutside l (withString l byte n (max k (n - 1)) c value)
        (writeBytes c byte (value.take n)) ↔
      (k < n → IsChecksum l (BitVec.ofNat 8 (byte + (n - 1))) ∨ value.getD (n - 1) 0 = 0) ∧
        ∀ i, n ≤ i → i < k →
          IsChecksum l (BitVec.ofNat 8 (byte + i)) ∨ value.getD i 0 = cmosRead c (byte + i) := by
  have hlen : (value.take n).length = n := by
    rw [List.length_take]
    omega
  have hpayload (i : ℕ) (hi : i < n) :
      cmosRead (writeBytes c byte (value.take n)) (byte + i) = value.getD i 0 := by
    rw [writeBytes_read (by omega) (by omega), List.getElem_take, List.getD_eq_getElem]
  have hread (i : ℕ) (hi : i < max k (n - 1)) (hne : byte + i ≠ l.LB_CKS_LOC)
      (hne' : byte + i ≠ l.LB_CKS_LOC + 1) :
      cmosRead (withString l byte n (max k (n - 1)) c value) (byte + i) = value.getD i 0 :=
    withString_read (by omega) (by omega) hi fun _ => ⟨hne, hne'⟩
  have hlast (hkn : k < n) (hne : byte + (n - 1) ≠ l.LB_CKS_LOC)
      (hne' : byte + (n - 1) ≠ l.LB_CKS_LOC + 1) :
      cmosRead (withString l byte n (max k (n - 1)) c value) (byte + (n - 1)) = 0 := by
    rw [show max k (n - 1) = n - 1 by omega]
    exact withString_last (by omega) hfits (by omega) fun _ => ⟨hne, hne'⟩
  rw [sameOutside_iff]
  constructor
  · intro h
    refine ⟨fun hkn => ?_, fun i hi hik => ?_⟩
    · rw [isChecksum_ofNat (by omega), or_iff_not_imp_left, not_or]
      rintro ⟨hne, hne'⟩
      rw [← hpayload (n - 1) (by omega), ← h _ (by omega) hne hne', hlast hkn hne hne']
    · rw [isChecksum_ofNat (by omega), or_iff_not_imp_left, not_or]
      rintro ⟨hne, hne'⟩
      rw [← hread i (by omega) hne hne', h _ (by omega) hne hne',
        writeBytes_frame (by omega) (by omega) (by omega)]
  · rintro ⟨hend, hbehind⟩ i hi hne hne'
    have hframe (hout : i < byte ∨ byte + n ≤ i) (hout' : i < byte ∨ byte + max k (n - 1) ≤ i) :
        cmosRead (withString l byte n (max k (n - 1)) c value) i =
          cmosRead (writeBytes c byte (value.take n)) i := by
      rw [withString_frame (by omega) (by omega) hfits hn hi hout hout' hne hne',
        writeBytes_frame hi (by omega) (by omega)]
    by_cases hlow : i < byte
    · exact hframe (.inl hlow) (.inl hlow)
    obtain ⟨j, rfl⟩ : ∃ j, i = byte + j := ⟨i - byte, by omega⟩
    have hstored : ¬IsChecksum l (BitVec.ofNat 8 (byte + j)) := by
      rw [isChecksum_ofNat hi]
      exact not_or.mpr ⟨hne, hne'⟩
    by_cases hj : j < max k (n - 1)
    · rw [hread j hj hne hne']
      by_cases hjn : j < n
      · exact (hpayload j hjn).symm
      · rw [(hbehind j (by omega) (by omega)).resolve_left hstored,
          writeBytes_frame hi (by omega) (by omega)]
    · by_cases hjn : j < n
      · obtain rfl : j = n - 1 := by omega
        rw [hlast (by omega) hne hne', hpayload _ hjn]
        exact ((hend (by omega)).resolve_left hstored).symm
      · exact hframe (.inr (by omega)) (.inr (by omega))

/-- Whole bytes are written byte by byte, also a single one. -/
lemma setCmosValue_aligned (hbit : bit % 8 = 0) (hn : 0 < n) :
    setCmosValue c bit (8 * n) value =
      if n ≤ value.length then some (writeBytes c (bit / 8) (value.take n)) else none := by
  by_cases hlength : 8 * n ≤ 8
  · obtain rfl : n = 1 := by omega
    rw [setCmosValue_bits hlength]
    cases value with
    | nil => rfl
    | cons b bs =>
      have hnew : withField (cmosRead c (bit / 8)) bit 8 (lowBits 8 b) = b := by
        rw [withField, mask, hbit, lowBits]
        simp [and_ones]
      rw [List.head?_cons, Option.map_some, Nat.mul_one, hnew, if_pos (by simp)]
      rfl
  · rw [setCmosValue_bytes hlength, Nat.mul_div_cancel_left n (by decide)]
    by_cases hle : n ≤ value.length
    · rw [if_pos ⟨by omega, hle⟩, if_pos hle]
    · rw [if_neg fun h => hle h.2, if_neg hle]

lemma agree_string_iff (hvalid : rtcChecksumValid l c = true) (hcks : Exports l cks) (hlookup : lookupCmosEntry table name = some e)
    (hfind : findEntry table.entries name = some e) (hstring : e.isString = true)
    (hadm : Admissible e) (hend : ∀ len ∈ strlen value, e.bit / 8 + len ≤ 256) :
    Agree l cks table c name value ↔ MatchesString l table.entries c e name value := by
  obtain ⟨hbit, hmod⟩ := hadm.string hstring
  obtain ⟨byte, hbyte⟩ : ∃ byte, e.bit = 8 * byte := ⟨e.bit / 8, by omega⟩
  obtain ⟨n, hn⟩ : ∃ n, e.length = 8 * n := ⟨e.length / 8, by omega⟩
  have hpos := hadm.length_pos
  have hfits := hadm.fits
  have hset' := @setCmosValue_aligned c e.bit _ value hbit (show 0 < n by omega)
  rw [← hn] at hset'
  have hdiv : e.bit / 8 = byte := by omega
  have hdiv' : e.length / 8 = n := by omega
  rw [hdiv] at hset' hend
  rw [MatchesString, hdiv, hdiv']
  by_cases hle : n ≤ value.length
  · rw [if_pos hle] at hset'
    rw [and_iff_right hle]
    cases hstrlen : strlen value with
    | none =>
      refine iff_of_false ?_ fun h => ?_
      · rintro ⟨err, r, c', h, -⟩
        simp [setOption, hfind, hstring, hstrlen] at h
      · obtain ⟨⟨len, hlen, -⟩, -⟩ := h
        cases hlen
    | some k =>
      obtain ⟨hk, -⟩ := getElem_strlen hstrlen
      have hset := setOption_string (l := l) (c := c) hfind hadm hstring hstrlen hbyte hn
      rw [if_pos (by omega)] at hset
      rw [agree_iff_of_eq hcks hlookup hset hset', setOption_valid_iff hvalid hset,
        sameOutside_withString_iff (by omega) hle hk (by omega) (hend k hstrlen)]
      simp only [Option.mem_some, exists_eq_left']
  · refine iff_of_false (fun h => ?_) fun h => hle h.1
    obtain ⟨w, hw⟩ := exists_of_agree hlookup h
    rw [hset', if_neg hle] at hw
    cases hw

/-! ### The two stores -/

/-- The value is in the field, what is written is refreshed, and a payload finds what coreboot
does. -/
def Matches (l : Layout) (table : CbCmosOptionTable) (c : Cmos) (name value : List (BitVec 8)) :
    Prop :=
  match findEntry table.entries name with
  | none => ∀ e ∈ lookupCmosEntry table name, IsThere l c e value
  | some e =>
    if e.isString then MatchesString l table.entries c e name value
    else if e.length ≤ 8 then MatchesBits l c e value
    else MatchesBytes l c e value

lemma lookupCmosEntry_of_find (hfind : findEntry table.entries name = some e) :
    lookupCmosEntry table name = some e := by
  rw [lookupCmosEntry]
  split
  · next hnil =>
    rw [hnil] at hfind
    cases hfind
  · exact hfind

/-- coreboot and a payload leave the same CMOS exactly if the value matches. -/
theorem agree_iff (hcks : Exports l cks) (hvalid : rtcChecksumValid l c = true) :
    (StringsFit table.entries name value ∧ Matches l table c name value →
      Agree l cks table c name value) ∧
    (StringsFit table.entries name value → Agree l cks table c name value →
      Matches l table c name value) := by
  suffices h : StringsFit table.entries name value →
      (Agree l cks table c name value ↔ Matches l table c name value) from
    ⟨fun hfit => (h hfit.1).mpr hfit.2, fun hfit => (h hfit).mp⟩
  intro hfit
  rw [Matches]
  cases hfind : findEntry table.entries name with
  | none =>
    have hset : setOption l (some table.entries) c name value =
        some (.CB_CMOS_OPTION_NOT_FOUND, c) := by
      simp only [setOption, hfind]
    cases hlookup : lookupCmosEntry table name with
    | none =>
      refine iff_of_true ⟨_, 1, c, hset, ?_⟩ fun e he => by cases he
      simp only [setOptionWith, hlookup]
    | some e =>
      simp only [Option.mem_some, forall_eq']
      exact agree_unchanged_iff hvalid hcks hlookup hset
  | some e =>
    have hlookup := lookupCmosEntry_of_find hfind
    simp only
    split_ifs with hstring hlength
    · obtain ⟨hadm, hend⟩ := hfit e hfind hstring
      exact agree_string_iff hvalid hcks hlookup hfind hstring hadm hend
    · exact agree_bits_iff hvalid hcks hlookup hfind (Bool.not_eq_true _ ▸ hstring) hlength
    · exact agree_bytes_iff hvalid hcks hlookup hfind (Bool.not_eq_true _ ▸ hstring) hlength

/-- The record of the checksum that is exported. -/
def exampleChecksum : CbCmosChecksum := ⟨384, 447, 448⟩

def exampleNeighbours : CbCmosOptionTable := ⟨neighbours, ⟨0, 0, 0, []⟩⟩

theorem agree_iff_four_bits :
    Agree exampleLayout exampleChecksum exampleNeighbours (fun _ => 0) [0x61] [0x0f] := by
  refine (agree_iff ⟨rfl, rfl, rfl⟩ (by decide)).1 ⟨fun e he hstring => ?_, ?_⟩
  · obtain rfl : ⟨384, 4, 0x65, [0x61]⟩ = e := Option.some.inj he
    cases hstring
  · exact ⟨⟨0x0f, rfl, .inr (by decide)⟩, .inl (by decide)⟩

private lemma not_agree_of_read (a : BitVec 8) {b b' : BitVec 8} (hne : b ≠ b')
    (h : (setOption l (some table.entries) c name value).map (·.2 a) = some b)
    (h' : (setOptionWith cks table c value name).map (·.2 a) = some b') :
    ¬Agree l cks table c name value := by
  rintro ⟨err, r, c', hset, hset'⟩
  rw [hset] at h
  rw [hset'] at h'
  exact hne (Option.some.inj (h.symm.trans h'))

/-- A value of five bits in a field of four, the last two bytes of the range, and a string whose
buffer is not zero up to the end of the entry. -/
theorem not_agree_of_wide :
    rtcChecksumValid exampleLayout (fun _ => 0) = true ∧ Exports exampleLayout exampleChecksum ∧
      ¬Agree exampleLayout exampleChecksum exampleNeighbours (fun _ => 0) [0x61] [0x1f] ∧
      ¬Agree exampleLayout exampleChecksum ⟨exampleTable, ⟨0, 0, 0, []⟩⟩ (fun _ => 0) [0x68]
        [1, 2] ∧
      ¬Agree exampleLayout exampleChecksum exampleNeighbours (fun _ => 0) [0x73]
        [0x61, 0, 0, 0x61] :=
  ⟨by decide, ⟨rfl, rfl, rfl⟩,
    not_agree_of_read 48 (show (0x1f : BitVec 8) ≠ 0x0f by decide) (by decide) (by decide),
    not_agree_of_read 57 (show (0 : BitVec 8) ≠ 3 by decide) (by decide) (by decide),
    not_agree_of_read 52 (show (0 : BitVec 8) ≠ 0x61 by decide) (by decide) (by decide)⟩

end ApuBios.Options
