import ApuBios.Drivers.CmosOption.Checksum

/-!
# Setting and getting an option

`get_option` returns what `set_option` has set if the value fits into the entry.
-/

namespace ApuBios.CmosOption

variable {l : Layout} {c c' c₁ : Cmos} {addr byte bit length n k : ℕ} {b old : BitVec 8}
  {bs name value str : List (BitVec 8)} {table : List CmosEntry} {e : CmosEntry}

/-- The entries that are admitted into the table. -/
structure Admissible (e : CmosEntry) : Prop where
  length_pos : 0 < e.length
  fits : e.bit + e.length ≤ 2048
  shape : (e.length ≤ 8 ∧ e.bit % 8 + e.length ≤ 8) ∨ (e.bit % 8 = 0 ∧ e.length % 8 = 0)
  string : e.isString = true → e.bit % 8 = 0 ∧ e.length % 8 = 0

/-- The buffer of the caller: a string and its terminator, or enough bytes. -/
def Buffer (e : CmosEntry) (value : List (BitVec 8)) : Prop :=
  if e.isString then ∃ str, value = str ++ [0] ∧ (0 : BitVec 8) ∉ str
  else (e.length + 7) / 8 ≤ value.length

/-- The value truncated to the entry; a string is filled with zeros. -/
def truncated (e : CmosEntry) (value : List (BitVec 8)) : List (BitVec 8) :=
  if e.isString then
    (value.dropLast ++ List.replicate (e.length / 8) 0).take (e.length / 8)
  else if e.length ≤ 8 then
    [value.headD 0 &&& ((1#8 <<< e.length) - 1)]
  else
    value.take (e.length / 8)

/-- The bit `k` of the byte is one of the field of the entry. -/
def InField (e : CmosEntry) (addr : BitVec 8) (k : ℕ) : Prop :=
  e.bit ≤ 8 * addr.toNat + k ∧ 8 * addr.toNat + k < e.bit + e.length

/-- The option is set, what is got then is the value, and no other bit but those of the stored
checksum is changed. -/
def RoundTrip (l : Layout) (table : List CmosEntry) (e : CmosEntry) (c : Cmos)
    (name value : List (BitVec 8)) : Prop :=
  ∃ c', setOption l (some table) c name value = some (.CB_SUCCESS, c') ∧
    getOption l (some table) c' name = some (.CB_SUCCESS, truncated e value) ∧
    ∀ addr k, k < 8 → ¬InField e addr k → addr ≠ BitVec.ofNat 8 l.LB_CKS_LOC →
      addr ≠ BitVec.ofNat 8 (l.LB_CKS_LOC + 1) → (c' addr).getLsbD k = (c addr).getLsbD k

/-- No bit of the value that lands outside the field changes what is there, and a string is at most
two bytes shorter than the entry. -/
def Fits (l : Layout) (e : CmosEntry) (c : Cmos) (value : List (BitVec 8)) : Prop :=
  if e.isString then
    e.length / 8 ≤ value.length + 1 ∧ ∀ i, e.length / 8 ≤ i → i + 1 < value.length →
      e.bit / 8 + i = l.LB_CKS_LOC ∨ e.bit / 8 + i = l.LB_CKS_LOC + 1 ∨
        cmosRead c (e.bit / 8 + i) = value.getD i 0
  else if e.length ≤ 8 then
    (value.headD 0 <<< (e.bit % 8)) &&& ~~~mask e.bit e.length &&& ~~~cmosRead c (e.bit / 8) = 0
  else
    True

/-- A string does not run past the end of the CMOS. -/
def InCmos (e : CmosEntry) (value : List (BitVec 8)) : Prop :=
  e.isString = true → e.bit / 8 + value.length ≤ 257

/-- The entry does not overlap the stored checksum. -/
def Apart (l : Layout) (e : CmosEntry) : Prop :=
  ∀ i, e.bit / 8 ≤ i → 8 * i < e.bit + e.length → i ≠ l.LB_CKS_LOC ∧ i ≠ l.LB_CKS_LOC + 1

/-- The number of bits that the last write of `set_option` is made with. -/
def writtenLength (e : CmosEntry) (value : List (BitVec 8)) : ℕ :=
  if e.isString then stringLength e (value.length - 1) else e.length

/-- If the byte that the last write is judged by is in the range, the entry does not overlap the stored
checksum. -/
def Clear (l : Layout) (e : CmosEntry) (value : List (BitVec 8)) : Prop :=
  InCksRange l (testedByte e.bit (writtenLength e value)) → Apart l e

/-! ### Bytes -/

lemma cmosRead_toNat (c : Cmos) (addr : BitVec 8) : cmosRead c addr.toNat = c addr := by
  rw [cmosRead, BitVec.ofNat_toNat, BitVec.setWidth_eq]

lemma writeBytes_frame (haddr : addr < 256) (hfits : byte + bs.length ≤ 256)
    (hout : addr < byte ∨ byte + bs.length ≤ addr) :
    cmosRead (writeBytes c byte bs) addr = cmosRead c addr := by
  induction bs generalizing c byte with
  | nil => rfl
  | cons b bs ih =>
    rw [List.length_cons] at hfits hout
    rw [writeBytes, ih (by omega) (by omega),
      cmosRead_cmosWrite_of_ne (by omega) haddr (by omega)]

lemma writeBytes_read (hfits : byte + bs.length ≤ 256) {i : ℕ} (hi : i < bs.length) :
    cmosRead (writeBytes c byte bs) (byte + i) = bs[i] := by
  induction bs generalizing c byte i with
  | nil => simp at hi
  | cons b bs ih =>
    rw [List.length_cons] at hfits hi
    cases i with
    | zero =>
      change cmosRead (writeBytes (cmosWrite c b byte) (byte + 1) bs) byte = b
      rw [writeBytes_frame (by omega) (by omega) (by omega), cmosRead_cmosWrite_self]
    | succ i =>
      rw [writeBytes, show byte + (i + 1) = byte + 1 + i by omega, ih (by omega) (by omega)]
      rfl

lemma rtcSetChecksum_frame (haddr : addr < 256) (hloc : addr ≠ l.LB_CKS_LOC)
    (hloc' : addr ≠ l.LB_CKS_LOC + 1) :
    cmosRead (rtcSetChecksum l c) addr = cmosRead c addr := by
  have := l.loc_lt
  rw [rtcSetChecksum, cmosRead_cmosWrite_of_ne (by omega) haddr hloc',
    cmosRead_cmosWrite_of_ne (by omega) haddr hloc]

lemma and_ones (x : BitVec 8) : x &&& 255#8 = x := BitVec.and_allOnes

/-- Fields of whole bytes are written byte by byte, also those of one byte. -/
lemma writeValue_aligned (hbit : bit % 8 = 0) (hn : n ≤ value.length) (hpos : 0 < value.length)
    (hzero : n = 0 → value.headD 0 = 0) :
    writeValue c bit (8 * n) value = some (writeBytes c (bit / 8) (value.take n)) := by
  obtain ⟨v, vs, rfl⟩ := List.exists_cons_of_length_pos hpos
  unfold writeValue
  by_cases h8 : 8 * n ≤ 8
  · rw [if_pos h8, List.head?_cons, Option.map_some]
    obtain rfl | rfl : n = 0 ∨ n = 1 := by omega
    · have hv : v = 0 := hzero rfl
      have hold : (cmosRead c (bit / 8) &&& ~~~mask bit 0 ||| v <<< (bit % 8)) =
          cmosRead c (bit / 8) := by
        rw [hv, mask, hbit]
        simp [and_ones]
      simp only [Nat.mul_zero, hold, List.take_zero, writeBytes]
      exact congrArg some (Function.update_eq_self _ _)
    · have hnew : (cmosRead c (bit / 8) &&& ~~~mask bit 8 ||| v <<< (bit % 8)) = v := by
        rw [mask, hbit]
        simp
      simp only [Nat.mul_one, hnew, List.take_succ_cons, List.take_zero, writeBytes]
  · rw [if_neg h8, Nat.mul_div_cancel_left n (by decide), if_neg (by omega)]

lemma getCmosValue_aligned (hbit : bit % 8 = 0) (hn : 0 < n) :
    getCmosValue c bit (8 * n) = some ((List.range n).map fun i => cmosRead c (bit / 8 + i)) := by
  unfold getCmosValue
  by_cases h9 : 8 * n < 9
  · obtain rfl : n = 1 := by omega
    rw [if_pos h9, hbit]
    simp [and_ones]
  · rw [if_neg h9, if_neg (by omega), Nat.mul_div_cancel_left n (by decide)]

/-! ### Bits -/

lemma getLsbD_lowMask : ∀ length ≤ 8, ∀ k < 8,
    ((1#8 <<< length) - 1).getLsbD k = decide (k < length) := by decide

lemma getLsbD_mask (hshape : bit % 8 + length ≤ 8) (hk : k < 8) :
    (mask bit length).getLsbD k = decide (bit % 8 ≤ k ∧ k < bit % 8 + length) := by
  rw [mask, BitVec.getLsbD_shiftLeft]
  by_cases hlow : k < bit % 8
  · simp [hk, hlow, Nat.not_le.mpr hlow]
  · rw [getLsbD_lowMask length (by omega) (k - bit % 8) (by omega)]
    simp only [hk, hlow, decide_true, decide_false, Bool.not_false, Bool.true_and]
    exact decide_eq_decide.mpr (by omega)

/-- The byte that a field of a few bits is written to. -/
def withField (old : BitVec 8) (bit length : ℕ) (b : BitVec 8) : BitVec 8 :=
  (old &&& ~~~mask bit length) ||| (b <<< (bit % 8))

lemma withField_read (hshape : bit % 8 + length ≤ 8) :
    (withField old bit length b >>> (bit % 8)) &&& ((1#8 <<< length) - 1) =
      b &&& ((1#8 <<< length) - 1) := by
  apply BitVec.eq_of_getLsbD_eq
  intro i hi
  rw [BitVec.getLsbD_and, BitVec.getLsbD_and, getLsbD_lowMask length (by omega) i hi]
  by_cases hlen : i < length
  · have hmask : (mask bit length).getLsbD (bit % 8 + i) = true := by
      rw [getLsbD_mask hshape (by omega)]
      exact decide_eq_true (by omega)
    rw [BitVec.getLsbD_ushiftRight, withField, BitVec.getLsbD_or, BitVec.getLsbD_and,
      BitVec.getLsbD_not, hmask, BitVec.getLsbD_shiftLeft]
    simp [show bit % 8 + i < 8 by omega]
  · simp [hlen]

/-- The bits outside the field are kept exactly if no bit of the value lands on a clear one. -/
lemma withField_frame_iff (hshape : bit % 8 + length ≤ 8) :
    (∀ k < 8, ¬(bit % 8 ≤ k ∧ k < bit % 8 + length) →
      (withField old bit length b).getLsbD k = old.getLsbD k) ↔
      (b <<< (bit % 8)) &&& ~~~mask bit length &&& ~~~old = 0 := by
  constructor
  · intro h
    apply BitVec.eq_of_getLsbD_eq
    intro k hk
    by_cases hin : bit % 8 ≤ k ∧ k < bit % 8 + length
    · simp [getLsbD_mask hshape hk, hin]
    · have hkeep := h k hk hin
      rw [withField, BitVec.getLsbD_or, BitVec.getLsbD_and, BitVec.getLsbD_not,
        getLsbD_mask hshape hk, decide_eq_false hin] at hkeep
      simp only [BitVec.getLsbD_and, BitVec.getLsbD_not, getLsbD_mask hshape hk,
        decide_eq_false hin]
      revert hkeep
      cases (b <<< (bit % 8)).getLsbD k <;> cases old.getLsbD k <;> simp [hk]
  · intro h k hk hin
    have hbit := congrArg (·.getLsbD k) h
    simp only [BitVec.getLsbD_and, BitVec.getLsbD_not, getLsbD_mask hshape hk, decide_eq_false hin]
      at hbit
    rw [withField, BitVec.getLsbD_or, BitVec.getLsbD_and, BitVec.getLsbD_not,
      getLsbD_mask hshape hk, decide_eq_false hin]
    revert hbit
    cases (b <<< (bit % 8)).getLsbD k <;> cases old.getLsbD k <;> simp [hk]

/-! ### Options -/

lemma getOption_eq (hfind : findEntry table name = some e) :
    getOption l (some table) c name = (getCmosValue c e.bit e.length).map fun dest =>
      (if rtcChecksumValid l c then .CB_SUCCESS else .CB_CMOS_CHECKSUM_INVALID, dest) := by
  simp only [getOption, hfind]

lemma setOption_eq (hfind : findEntry table name = some e) (hstring : e.isString = false) :
    setOption l (some table) c name value =
      (setCmosValue l c e.bit e.length value).map accessError := by
  simp only [setOption, hfind, hstring, Bool.false_eq_true, if_false]

/-- The checksum is refreshed if that is needed. -/
def refreshed (l : Layout) (bit length : ℕ) (c : Cmos) : Cmos :=
  if chksumUpdateNeeded l bit length then rtcSetChecksum l c else c

lemma setCmosValue_eq (hshape : length ≤ 8 ∨ bit % 8 = 0 ∧ length % 8 = 0)
    (hwrite : writeValue c bit length value = some c₁) :
    setCmosValue l c bit length value = some (.CB_SUCCESS, refreshed l bit length c₁) := by
  rw [setCmosValue, if_neg (by omega), hwrite]
  rfl

lemma refreshed_frame (haddr : addr < 256) (hloc : addr ≠ l.LB_CKS_LOC)
    (hloc' : addr ≠ l.LB_CKS_LOC + 1) :
    cmosRead (refreshed l bit length c) addr = cmosRead c addr := by
  unfold refreshed
  split_ifs
  · exact rtcSetChecksum_frame haddr hloc hloc'
  · rfl

/-- A round trip for an entry of whole bytes, from what its bytes hold after the call. -/
private lemma roundTrip_of_bytes (hfind : findEntry table name = some e) (hbit : e.bit % 8 = 0)
    (hlength : e.length = 8 * n) (hn : 0 < n)
    (hset : setOption l (some table) c name value = some (.CB_SUCCESS, c'))
    (hvalid : rtcChecksumValid l c' = true)
    (hread : (List.range n).map (fun i => cmosRead c' (e.bit / 8 + i)) = truncated e value)
    (hframe : ∀ addr < 256, addr < e.bit / 8 ∨ e.bit / 8 + n ≤ addr → addr ≠ l.LB_CKS_LOC →
      addr ≠ l.LB_CKS_LOC + 1 → cmosRead c' addr = cmosRead c addr) :
    RoundTrip l table e c name value := by
  refine ⟨c', hset, ?_, fun addr k hk hin hloc hloc' => ?_⟩
  · rw [getOption_eq hfind, hlength, getCmosValue_aligned hbit hn, Option.map_some, hread,
      if_pos hvalid]
  · have hne : ∀ i < 256, addr ≠ BitVec.ofNat 8 i → addr.toNat ≠ i := fun i hi hne heq => by
      refine hne (BitVec.eq_of_toNat_eq ?_)
      rw [BitVec.toNat_ofNat, heq, Nat.mod_eq_of_lt hi]
    have := l.loc_lt
    have hout : addr.toNat < e.bit / 8 ∨ e.bit / 8 + n ≤ addr.toNat := by
      rw [InField] at hin
      omega
    rw [← cmosRead_toNat c', ← cmosRead_toNat c, hframe _ addr.isLt hout
      (hne _ (by omega) hloc) (hne _ l.loc_lt hloc')]

/-- Several bytes that are not a string. -/
private lemma roundTrip_bytes (hfind : findEntry table name = some e) (hadm : Admissible e)
    (hstring : e.isString = false) (hlong : 8 < e.length)
    (hbuffer : (e.length + 7) / 8 ≤ value.length)
    (hclear : chksumUpdateNeeded l e.bit e.length = true → Apart l e)
    (hvalid : rtcChecksumValid l c = true) (hkeeps : KeepsChecksum l table c (name, value)) :
    RoundTrip l table e c name value := by
  obtain ⟨hbit, hmod⟩ : e.bit % 8 = 0 ∧ e.length % 8 = 0 := by
    rcases hadm.shape with h | h
    · omega
    · exact h
  obtain ⟨n, hn⟩ : ∃ n, e.length = 8 * n := ⟨e.length / 8, by omega⟩
  have hfits := hadm.fits
  have hlen : (value.take n).length = n := by
    rw [List.length_take]
    omega
  have hset : setOption l (some table) c name value = some (.CB_SUCCESS,
      refreshed l e.bit e.length (writeBytes c (e.bit / 8) (value.take n))) := by
    rw [setOption_eq hfind hstring, setCmosValue_eq (Or.inr ⟨hbit, hmod⟩)
      (by rw [hn]; exact writeValue_aligned hbit (by omega) (by omega) (by omega))]
    rfl
  refine roundTrip_of_bytes hfind hbit hn (by omega) hset ((setOption_valid_iff hvalid hset).mpr hkeeps)
    ?_ fun addr haddr hout hloc hloc' => ?_
  · have htrunc : truncated e value = value.take n := by
      rw [truncated, hstring, if_neg (by simp), if_neg (by omega), hn,
        Nat.mul_div_cancel_left n (by decide)]
    rw [htrunc]
    refine List.ext_getElem (by simp [hlen]) fun i hi hi' => ?_
    have hi'' : i < n := by simpa using hi
    rw [List.getElem_map, List.getElem_range]
    have hkeep : cmosRead (refreshed l e.bit e.length (writeBytes c (e.bit / 8) (value.take n)))
        (e.bit / 8 + i) = cmosRead (writeBytes c (e.bit / 8) (value.take n)) (e.bit / 8 + i) := by
      by_cases hupdate : chksumUpdateNeeded l e.bit e.length = true
      · have hapart := hclear hupdate (e.bit / 8 + i) (by omega) (by omega)
        exact refreshed_frame (by omega) hapart.1 hapart.2
      · rw [refreshed, if_neg hupdate]
    rw [hkeep, writeBytes_read (by omega) hi']
  · rw [refreshed_frame haddr hloc hloc', writeBytes_frame haddr (by omega) (by omega)]

/-- The checksum does not stay valid if one of its bytes is changed alone. -/
private lemma eq_of_valid (hvalid : rtcChecksumValid l c = true)
    (hvalid' : rtcChecksumValid l (cmosWrite c b addr) = true)
    (haddr : addr = l.LB_CKS_LOC ∨ addr = l.LB_CKS_LOC + 1) : b = cmosRead c addr := by
  have hloc := l.loc_lt
  have hrange : rangeSum l (cmosWrite c b addr) = rangeSum l c := by
    have := l.range_lt
    have := l.apart
    exact rangeSum_congr fun i hlow hhigh =>
      cmosRead_cmosWrite_of_ne (by omega) (by omega) (by omega)
  rw [rtcChecksumValid, beq_iff_eq] at hvalid hvalid'
  have hstored : storedSum l (cmosWrite c b addr) = storedSum l c := by
    rw [← hvalid', hrange, hvalid]
  unfold storedSum at hstored
  rcases haddr with rfl | rfl
  · have := congrArg (fun x : BitVec 16 => (x >>> 8).setWidth 8) hstored
    simpa only [join_high, cmosRead_cmosWrite_self] using this
  · have := congrArg (fun x : BitVec 16 => x.setWidth 8) hstored
    simpa only [join_low, cmosRead_cmosWrite_self] using this

/-- A few bits. -/
private lemma roundTrip_bits_iff (hfind : findEntry table name = some e) (hadm : Admissible e)
    (hstring : e.isString = false) (hshort : e.length ≤ 8) (hpos : 0 < value.length)
    (hvalid : rtcChecksumValid l c = true) :
    RoundTrip l table e c name value ↔
      (value.headD 0 <<< (e.bit % 8)) &&& ~~~mask e.bit e.length &&& ~~~cmosRead c (e.bit / 8) = 0 ∧
        KeepsChecksum l table c (name, value) := by
  obtain ⟨v, vs, rfl⟩ := List.exists_cons_of_length_pos hpos
  have hfits := hadm.fits
  have hlength := hadm.length_pos
  have hshape : e.bit % 8 + e.length ≤ 8 := by
    rcases hadm.shape with h | h
    · exact h.2
    · omega
  have hloc := l.loc_lt
  have hbyte : e.bit / 8 < 256 := by omega
  let new := withField (cmosRead c (e.bit / 8)) e.bit e.length v
  have hset : setOption l (some table) c name (v :: vs) = some (.CB_SUCCESS,
      refreshed l e.bit e.length (cmosWrite c new (e.bit / 8))) := by
    rw [setOption_eq hfind hstring, setCmosValue_eq (Or.inl hshort)
      (by rw [writeValue, if_pos hshort]; rfl)]
    rfl
  -- a byte that is in the range is not part of the stored checksum
  have hinside : chksumUpdateNeeded l e.bit e.length = true →
      e.bit / 8 ≠ l.LB_CKS_LOC ∧ e.bit / 8 ≠ l.LB_CKS_LOC + 1 := fun hupdate => by
    have := l.apart
    rw [chksumUpdateNeeded, if_pos hshort] at hupdate
    simp only [Bool.and_eq_true, decide_eq_true_eq] at hupdate
    omega
  have hnew : cmosRead (refreshed l e.bit e.length (cmosWrite c new (e.bit / 8))) (e.bit / 8) =
      new := by
    by_cases hupdate : chksumUpdateNeeded l e.bit e.length = true
    · rw [refreshed_frame hbyte (hinside hupdate).1 (hinside hupdate).2, cmosRead_cmosWrite_self]
    · rw [refreshed, if_neg hupdate, cmosRead_cmosWrite_self]
  have hget : getCmosValue (refreshed l e.bit e.length (cmosWrite c new (e.bit / 8))) e.bit
      e.length = some (truncated e (v :: vs)) := by
    rw [getCmosValue, if_pos (by omega), hnew, withField_read hshape, truncated, hstring,
      if_neg (by simp), if_pos hshort]
    rfl
  rw [← setOption_valid_iff hvalid hset, ← withField_frame_iff hshape, List.headD_cons]
  constructor
  · rintro ⟨c', hset', hgot, hframe⟩
    obtain rfl := (Prod.mk.inj (Option.some.inj (hset.symm.trans hset'))).2
    have hvalid' : rtcChecksumValid l
        (refreshed l e.bit e.length (cmosWrite c new (e.bit / 8))) = true := by
      by_contra hnot
      rw [getOption_eq hfind, hget, Option.map_some, if_neg hnot] at hgot
      simp at hgot
    refine ⟨fun k hk hout => ?_, hvalid'⟩
    by_cases hsum : e.bit / 8 = l.LB_CKS_LOC ∨ e.bit / 8 = l.LB_CKS_LOC + 1
    · have hupdate : ¬chksumUpdateNeeded l e.bit e.length = true := fun hupdate => by
        have := hinside hupdate
        omega
      rw [refreshed, if_neg hupdate] at hvalid'
      exact congrArg (·.getLsbD k) (eq_of_valid hvalid hvalid' hsum)
    · rw [not_or] at hsum
      have hk' := hframe (BitVec.ofNat 8 (e.bit / 8)) k hk (fun hin => by
        rw [InField, BitVec.toNat_ofNat, Nat.mod_eq_of_lt hbyte] at hin
        omega) (ofNat_ne hbyte (by omega) hsum.1) (ofNat_ne hbyte hloc hsum.2)
      change (cmosRead (refreshed l e.bit e.length (cmosWrite c new (e.bit / 8)))
        (e.bit / 8)).getLsbD k = _ at hk'
      rwa [hnew] at hk'
  · rintro ⟨hbits, hvalid'⟩
    refine ⟨_, hset, ?_, fun addr k hk hin hne hne' => ?_⟩
    · rw [getOption_eq hfind, hget, Option.map_some, if_pos hvalid']
    · by_cases haddr : addr = BitVec.ofNat 8 (e.bit / 8)
      · subst haddr
        change (cmosRead (refreshed l e.bit e.length (cmosWrite c new (e.bit / 8)))
          (e.bit / 8)).getLsbD k = _
        rw [hnew]
        refine hbits k hk fun hfield => hin ?_
        rw [InField, BitVec.toNat_ofNat, Nat.mod_eq_of_lt hbyte]
        omega
      · unfold refreshed
        split_ifs
        · rw [rtcSetChecksum, cmosWrite, Function.update_of_ne hne', cmosWrite,
            Function.update_of_ne hne, cmosWrite, Function.update_of_ne haddr]
        · rw [cmosWrite, Function.update_of_ne haddr]

/-! ### Strings -/

/-- The CMOS after a string is set: its terminator is written first, then `w` bytes. -/
def withString (l : Layout) (byte n w : ℕ) (c : Cmos) (value : List (BitVec 8)) : Cmos :=
  refreshed l (8 * byte) (8 * w) (writeBytes
    (refreshed l (8 * (byte + n - 1)) 8 (cmosWrite c 0 (byte + n - 1))) byte (value.take w))

lemma refreshed_last (haddr : addr < 256) :
    cmosRead (refreshed l (8 * addr) 8 (cmosWrite c b addr)) addr = b := by
  have hapart := l.apart
  by_cases hupdate : chksumUpdateNeeded l (8 * addr) 8 = true
  · have hbyte := hupdate
    rw [chksumUpdateNeeded, if_pos (by decide), Nat.mul_div_cancel_left addr (by decide)] at hbyte
    simp only [Bool.and_eq_true, decide_eq_true_eq] at hbyte
    rw [refreshed_frame haddr (by omega) (by omega), cmosRead_cmosWrite_self]
  · rw [refreshed, if_neg hupdate, cmosRead_cmosWrite_self]

lemma withString_read {w i : ℕ} (hw : w ≤ value.length) (hfits : byte + w ≤ 256)
    (hi : i < w)
    (hclear : chksumUpdateNeeded l (8 * byte) (8 * w) = true →
      byte + i ≠ l.LB_CKS_LOC ∧ byte + i ≠ l.LB_CKS_LOC + 1) :
    cmosRead (withString l byte n w c value) (byte + i) = value.getD i 0 := by
  have hlen : (value.take w).length = w := by
    rw [List.length_take]
    omega
  have hread : cmosRead (writeBytes (refreshed l (8 * (byte + n - 1)) 8
      (cmosWrite c 0 (byte + n - 1))) byte (value.take w)) (byte + i) = value.getD i 0 := by
    rw [writeBytes_read (by omega) (by omega), List.getElem_take, List.getD_eq_getElem]
  unfold withString
  by_cases hupdate : chksumUpdateNeeded l (8 * byte) (8 * w) = true
  · rw [refreshed_frame (by omega) (hclear hupdate).1 (hclear hupdate).2, hread]
  · rw [refreshed, if_neg hupdate, hread]

/-- The last byte of the entry, if no byte of the string is written to it. -/
lemma withString_last {w : ℕ} (hw : w ≤ value.length) (hfits : byte + n ≤ 256)
    (hn : n = w + 1)
    (hclear : chksumUpdateNeeded l (8 * byte) (8 * w) = true →
      byte + w ≠ l.LB_CKS_LOC ∧ byte + w ≠ l.LB_CKS_LOC + 1) :
    cmosRead (withString l byte n w c value) (byte + w) = 0 := by
  subst hn
  have hlen : (value.take w).length = w := by
    rw [List.length_take]
    omega
  have hread : cmosRead (writeBytes (refreshed l (8 * (byte + (w + 1) - 1)) 8
      (cmosWrite c 0 (byte + (w + 1) - 1))) byte (value.take w)) (byte + w) = 0 := by
    rw [writeBytes_frame (by omega) (by omega) (by omega), Nat.add_succ_sub_one]
    exact refreshed_last (by omega)
  unfold withString
  by_cases hupdate : chksumUpdateNeeded l (8 * byte) (8 * w) = true
  · rw [refreshed_frame (by omega) (hclear hupdate).1 (hclear hupdate).2, hread]
  · rw [refreshed, if_neg hupdate, hread]

lemma withString_frame {w : ℕ} (hw : w ≤ value.length) (hfits : byte + w ≤ 256)
    (hfits' : byte + n ≤ 256) (hn : 0 < n) (haddr : addr < 256)
    (hout : addr < byte ∨ byte + n ≤ addr) (hout' : addr < byte ∨ byte + w ≤ addr)
    (hloc : addr ≠ l.LB_CKS_LOC) (hloc' : addr ≠ l.LB_CKS_LOC + 1) :
    cmosRead (withString l byte n w c value) addr = cmosRead c addr := by
  have hlen : (value.take w).length = w := by
    rw [List.length_take]
    omega
  rw [withString, refreshed_frame haddr hloc hloc',
    writeBytes_frame haddr (by omega) (by omega), refreshed_frame haddr hloc hloc',
    cmosRead_cmosWrite_of_ne (by omega) haddr (by omega)]

lemma strlen_append (hstr : (0 : BitVec 8) ∉ str) : strlen (str ++ [0]) = some str.length := by
  have hnone : str.findIdx? (· == 0) = none := by
    rw [List.findIdx?_eq_none_iff]
    intro x hx
    exact beq_eq_false_iff_ne.mpr fun h => hstr (h ▸ hx)
  rw [strlen, List.findIdx?_append, hnone, Option.none_or]
  simp

private lemma stringLength_eq (hlength : e.length = 8 * n) (hn : 0 < n) (hfits : 8 * n ≤ 2048) :
    stringLength e k = 8 * max k (n - 1) := by
  rw [stringLength, hlength, Word.sub_eq (by omega) (by omega)]
  omega

lemma getElem_strlen (h : strlen value = some k) : ∃ hk : k < value.length, value[k] = 0 := by
  obtain ⟨hk, hzero, -⟩ := List.findIdx?_eq_some_iff_getElem.mp h
  exact ⟨hk, beq_iff_eq.mp hzero⟩

/-- What `set_option` does to a string. -/
lemma setOption_string (hfind : findEntry table name = some e) (hadm : Admissible e)
    (hstring : e.isString = true) (hstrlen : strlen value = some k) (hbit : e.bit = 8 * byte)
    (hlength : e.length = 8 * n) :
    setOption l (some table) c name value =
      if max k (n - 1) ≤ value.length then
        some (.CB_SUCCESS, withString l byte n (max k (n - 1)) c value)
      else none := by
  have hfits := hadm.fits
  have hpos := hadm.length_pos
  obtain ⟨hk, hzero⟩ := getElem_strlen hstrlen
  have hlast : Word.sub 32 (Word.add 32 e.bit e.length) 8 = 8 * (byte + n - 1) := by
    rw [Word.add_eq (by omega), Word.sub_eq (by omega) (by omega)]
    omega
  have hterm : setTerminator l c e = some (.CB_SUCCESS,
      refreshed l (8 * (byte + n - 1)) 8 (cmosWrite c 0 (byte + n - 1))) := by
    have hwrite : writeValue c (8 * (byte + n - 1)) (8 * 1) [0] =
        some (writeBytes c (8 * (byte + n - 1) / 8) ([0].take 1)) :=
      writeValue_aligned (by omega) (by simp) (by simp) (by simp)
    rw [Nat.mul_div_cancel_left _ (by decide)] at hwrite
    rw [setTerminator, hlast]
    exact setCmosValue_eq (Or.inl (by decide)) hwrite
  simp only [setOption, hfind, hstring, if_true, hstrlen, hterm, Option.bind_some,
    stringLength_eq hlength (show 0 < n by omega) (by omega), hbit]
  split_ifs with hw
  · have hwrite : writeValue (refreshed l (8 * (byte + n - 1)) 8 (cmosWrite c 0 (byte + n - 1)))
        (8 * byte) (8 * max k (n - 1)) value = _ :=
      writeValue_aligned (by omega) hw (by omega) fun hmax => by
        obtain rfl : k = 0 := by omega
        rw [List.headD_eq_head?_getD, List.head?_eq_getElem?, List.getElem?_eq_getElem hk, hzero]
        rfl
    rw [Nat.mul_div_cancel_left byte (by decide)] at hwrite
    rw [setCmosValue_eq (Or.inr ⟨by omega, by omega⟩) hwrite]
    rfl
  · rw [setCmosValue, if_neg (by omega), writeValue, if_neg (by omega), if_pos (by omega)]
    rfl

/-- A string. -/
private lemma roundTrip_string (hfind : findEntry table name = some e) (hadm : Admissible e)
    (hstring : e.isString = true) (hstr : (0 : BitVec 8) ∉ str)
    (hclear : Clear l e (str ++ [0])) (hfit : Fits l e c (str ++ [0]))
    (hcmos : InCmos e (str ++ [0])) (hvalid : rtcChecksumValid l c = true)
    (hkeeps : KeepsChecksum l table c (name, str ++ [0])) :
    RoundTrip l table e c name (str ++ [0]) := by
  obtain ⟨hbit, hmod⟩ := hadm.string hstring
  obtain ⟨byte, hbyte⟩ : ∃ byte, e.bit = 8 * byte := ⟨e.bit / 8, by omega⟩
  obtain ⟨n, hn⟩ : ∃ n, e.length = 8 * n := ⟨e.length / 8, by omega⟩
  have hfits := hadm.fits
  have hpos := hadm.length_pos
  have hdiv : e.bit / 8 = byte := by omega
  have hdiv' : e.length / 8 = n := by omega
  have hlen : (str ++ [(0 : BitVec 8)]).length = str.length + 1 := List.length_append
  have hend := hcmos hstring
  rw [Fits, if_pos hstring, hdiv', hdiv, hlen] at hfit
  obtain ⟨hshort, hbehind⟩ := hfit
  have hset := setOption_string (l := l) (c := c) hfind hadm hstring (strlen_append hstr) hbyte hn
  rw [if_pos (by omega)] at hset
  rw [Clear, writtenLength, ← chksumUpdateNeeded_iff, if_pos hstring, hlen, Nat.add_sub_cancel,
    stringLength_eq hn (by omega) (by omega), hbyte] at hclear
  refine roundTrip_of_bytes hfind hbit hn (by omega) hset ((setOption_valid_iff hvalid hset).mpr hkeeps)
    ?_ fun addr haddr hout hloc hloc' => ?_
  · refine List.ext_getElem (by simp [truncated, hstring, hdiv']) fun i hi hi' => ?_
    have hin : i < n := by simpa using hi
    have hkept : chksumUpdateNeeded l (8 * byte) (8 * max str.length (n - 1)) = true →
        byte + i ≠ l.LB_CKS_LOC ∧ byte + i ≠ l.LB_CKS_LOC + 1 := fun h =>
      hclear h (byte + i) (by omega) (by omega)
    have htrunc : (truncated e (str ++ [0]))[i] = (str ++ [0]).getD i 0 := by
      simp only [truncated, hstring, if_true, List.dropLast_concat, List.getElem_take]
      rw [List.getD_eq_getElem?_getD]
      by_cases hi' : i < str.length
      · rw [List.getElem_append_left hi', List.getElem?_append_left hi',
          List.getElem?_eq_getElem hi', Option.getD_some]
      · rw [List.getElem_append_right (by omega), List.getElem_replicate,
          List.getElem?_append_right (by omega)]
        cases (i - str.length) <;> rfl
    rw [List.getElem_map, List.getElem_range, hdiv, htrunc]
    by_cases hi' : i < max str.length (n - 1)
    · exact withString_read (by omega) (by omega) hi' hkept
    · obtain rfl : i = max str.length (n - 1) := by omega
      rw [withString_last (by omega) (by omega) (by omega) hkept, List.getD_eq_getElem?_getD,
        List.getElem?_append_right (by omega)]
      cases (max str.length (n - 1) - str.length) <;> rfl
  · rw [hdiv] at hout
    by_cases hw : addr < byte ∨ byte + max str.length (n - 1) ≤ addr
    · exact withString_frame (by omega) (by omega) (by omega) (by omega) haddr hout hw hloc hloc'
    · obtain ⟨i, rfl⟩ : ∃ i, addr = byte + i := ⟨addr - byte, by omega⟩
      rw [withString_read (by omega) (by omega) (by omega) fun _ => ⟨hloc, hloc'⟩]
      rcases hbehind i (by omega) (by omega) with h | h | h
      · exact absurd h hloc
      · exact absurd h hloc'
      · exact h.symm

/-- What a round trip says about a string. -/
private lemma fits_of_roundTrip (hfind : findEntry table name = some e) (hadm : Admissible e)
    (hstring : e.isString = true) (hstr : (0 : BitVec 8) ∉ str)
    (hcmos : InCmos e (str ++ [0])) (h : RoundTrip l table e c name (str ++ [0])) :
    Fits l e c (str ++ [0]) := by
  obtain ⟨hbit, hmod⟩ := hadm.string hstring
  obtain ⟨byte, hbyte⟩ : ∃ byte, e.bit = 8 * byte := ⟨e.bit / 8, by omega⟩
  obtain ⟨n, hn⟩ : ∃ n, e.length = 8 * n := ⟨e.length / 8, by omega⟩
  have hfits := hadm.fits
  have hdiv : e.bit / 8 = byte := by omega
  have hdiv' : e.length / 8 = n := by omega
  have hlen : (str ++ [(0 : BitVec 8)]).length = str.length + 1 := List.length_append
  have hend := hcmos hstring
  obtain ⟨c', hset, -, hframe⟩ := h
  rw [setOption_string hfind hadm hstring (strlen_append hstr) hbyte hn, hlen] at hset
  have hw : max str.length (n - 1) ≤ str.length + 1 := by
    by_contra hw
    rw [if_neg hw] at hset
    cases hset
  rw [if_pos hw] at hset
  obtain rfl := (Prod.mk.inj (Option.some.inj hset)).2
  rw [Fits, if_pos hstring, hdiv', hdiv, hlen]
  refine ⟨by omega, fun i hi hi' => ?_⟩
  by_cases hloc : byte + i = l.LB_CKS_LOC
  · exact Or.inl hloc
  by_cases hloc' : byte + i = l.LB_CKS_LOC + 1
  · exact Or.inr (Or.inl hloc')
  have hlt := l.loc_lt
  have hread : cmosRead (withString l byte n (max str.length (n - 1)) c (str ++ [0])) (byte + i) =
      (str ++ [0]).getD i 0 :=
    withString_read (by omega) (by omega) (by omega) fun _ => ⟨hloc, hloc'⟩
  rw [← hread]
  refine Or.inr (Or.inr (BitVec.eq_of_getLsbD_eq fun k hk => (hframe _ k hk (fun hin => ?_)
    (ofNat_ne (by omega) (by omega) hloc) (ofNat_ne (by omega) hlt hloc')).symm))
  rw [InField, BitVec.toNat_ofNat, Nat.mod_eq_of_lt (by omega)] at hin
  omega

/-! ### The round trip -/

private lemma roundTrip_iff_of_find (hfind : findEntry table name = some e) (hadm : Admissible e)
    (hbuffer : Buffer e value) (hvalid : rtcChecksumValid l c = true) :
    (Fits l e c value ∧ KeepsChecksum l table c (name, value) ∧ Clear l e value ∧ InCmos e value →
      RoundTrip l table e c name value) ∧
    (InCmos e value → RoundTrip l table e c name value →
      Fits l e c value ∧ KeepsChecksum l table c (name, value)) := by
  have hkeeps : RoundTrip l table e c name value → KeepsChecksum l table c (name, value) := by
    rintro ⟨c', hset, hget, -⟩
    rw [← setOption_valid_iff hvalid hset]
    by_contra hnot
    rw [getOption_eq hfind, Option.map_eq_some_iff] at hget
    obtain ⟨dest, -, hdest⟩ := hget
    rw [if_neg hnot] at hdest
    cases hdest
  have hpos := hadm.length_pos
  rw [Buffer] at hbuffer
  cases hstring : e.isString with
  | true =>
    rw [if_pos hstring] at hbuffer
    obtain ⟨str, rfl, hstr⟩ := hbuffer
    constructor
    · rintro ⟨hfit, hkeep, hclear, hcmos⟩
      exact roundTrip_string hfind hadm hstring hstr hclear hfit hcmos hvalid hkeep
    · intro hcmos h
      exact ⟨fits_of_roundTrip hfind hadm hstring hstr hcmos h, hkeeps h⟩
  | false =>
    rw [if_neg (by simp [hstring])] at hbuffer
    rw [Fits, if_neg (by simp [hstring])]
    by_cases hshort : e.length ≤ 8
    · rw [if_pos hshort]
      have hvalue : 0 < value.length := by omega
      have hiff := roundTrip_bits_iff hfind hadm hstring hshort hvalue hvalid
      exact ⟨fun h => hiff.mpr ⟨h.1, h.2.1⟩, fun _ h => hiff.mp h⟩
    · rw [if_neg hshort]
      refine ⟨fun h => ?_, fun _ h => ⟨trivial, hkeeps h⟩⟩
      have hclear := h.2.2.1
      rw [Clear, writtenLength, if_neg (by simp [hstring]), ← chksumUpdateNeeded_iff] at hclear
      exact roundTrip_bytes hfind hadm hstring (by omega) hbuffer hclear hvalid h.2.1

/-- An entry whose name is found is set and got again if the value fits and the call keeps the
checksum. Both are necessary, whatever the entry overlaps. -/
theorem roundTrip_iff (hadm : Admissible e) (hbuffer : Buffer e value)
    (hvalid : rtcChecksumValid l c = true) :
    (findEntry table e.name = some e ∧ Fits l e c value ∧
        KeepsChecksum l table c (e.name, value) ∧ Clear l e value ∧ InCmos e value →
      RoundTrip l table e c e.name value) ∧
    (findEntry table e.name = some e ∧ InCmos e value → RoundTrip l table e c e.name value →
      Fits l e c value ∧ KeepsChecksum l table c (e.name, value)) :=
  ⟨fun h => (roundTrip_iff_of_find h.1 hadm hbuffer hvalid).1 h.2,
    fun h => (roundTrip_iff_of_find h.1 hadm hbuffer hvalid).2 h.2⟩

/-! ### Neighbours -/

/-- Two options of four bits that share a byte, a string, and a name that is part of another. -/
def neighbours : List CmosEntry :=
  [⟨384, 4, 0x65, [0x61]⟩, ⟨388, 4, 0x65, [0x62, 0x62]⟩, ⟨392, 32, 0x73, [0x73]⟩,
    ⟨432, 8, 0x68, [0x62]⟩]

theorem roundTrip_iff_four_bits :
    RoundTrip exampleLayout neighbours ⟨384, 4, 0x65, [0x61]⟩ (fun _ => 0) [0x61] [0x0f] := by
  refine (roundTrip_iff (e := ⟨384, 4, 0x65, [0x61]⟩) ⟨by decide, by decide, by decide, by decide⟩
    ?_ (by decide)).1 ⟨by decide, ?_, by decide, fun _ i hlow hhigh => ?_, fun h => ?_⟩
  · change _ ≤ _
    decide
  · change _ = _
    decide
  · change 384 / 8 ≤ i at hlow
    change i ≠ 56 ∧ i ≠ 57
    change 8 * i < 384 + 4 at hhigh
    omega
  · cases h

/-- A call that changes a bit outside the field. -/
private lemma not_roundTrip_of_bit {a : BitVec 8} (hk : k < 8) (hin : ¬InField e a k)
    (hloc : a ≠ BitVec.ofNat 8 l.LB_CKS_LOC) (hloc' : a ≠ BitVec.ofNat 8 (l.LB_CKS_LOC + 1))
    (hbit : (setOption l (some table) c name value).map (fun x => (x.2 a).getLsbD k) ≠
      some ((c a).getLsbD k)) : ¬RoundTrip l table e c name value := by
  rintro ⟨c', hset, -, hframe⟩
  rw [hset, Option.map_some, hframe a k hk hin hloc hloc'] at hbit
  exact hbit rfl

/-- A value of five bits changes the neighbour, a string that is too long what follows it, and a
name that is part of an earlier one the other option. -/
theorem not_roundTrip_of_wide :
    ¬RoundTrip exampleLayout neighbours ⟨384, 4, 0x65, [0x61]⟩ (fun _ => 0) [0x61] [0x1f] ∧
      ¬RoundTrip exampleLayout neighbours ⟨392, 32, 0x73, [0x73]⟩ (fun _ => 0) [0x73]
        [0x61, 0x61, 0x61, 0x61, 0x61, 0] ∧
      ¬RoundTrip exampleLayout neighbours ⟨432, 8, 0x68, [0x62]⟩ (fun _ => 0) [0x62] [1] :=
  ⟨not_roundTrip_of_bit (a := 48) (k := 4) (by decide) (fun h => absurd h.2 (by decide))
      (by decide) (by decide) (by decide),
    not_roundTrip_of_bit (a := 53) (k := 0) (by decide) (fun h => absurd h.2 (by decide))
      (by decide) (by decide) (by decide),
    not_roundTrip_of_bit (a := 48) (k := 4) (by decide) (fun h => absurd h.1 (by decide))
      (by decide) (by decide) (by decide)⟩

end ApuBios.CmosOption
