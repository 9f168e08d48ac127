import ApuBios.Drivers.CmosOption.Basic
import ApuBios.Library.Transition

/-!
# The checksum of the CMOS

A call of `set_option` leaves a valid checksum exactly if the byte that its last write is judged by is
in the range, or the bytes that it writes sum to as much as those that were there (`KeepsChecksum`).
-/

namespace ApuBios.CmosOption

open Transition

variable {l : Layout} {c c' c₁ : Cmos} {addr addr' bit length : ℕ} {v : BitVec 8}
  {ret name value : List (BitVec 8)} {table : List CmosEntry} {ce : CmosEntry}

/-! ### Reading and writing -/

@[simp] lemma cmosRead_cmosWrite_self : cmosRead (cmosWrite c v addr) addr = v :=
  Function.update_self ..

lemma ofNat_ne (h : addr < 256) (h' : addr' < 256) (hne : addr ≠ addr') :
    BitVec.ofNat 8 addr ≠ BitVec.ofNat 8 addr' := fun heq => by
  have := congrArg BitVec.toNat heq
  rw [BitVec.toNat_ofNat, BitVec.toNat_ofNat] at this
  omega

lemma cmosRead_cmosWrite_of_ne (h : addr < 256) (h' : addr' < 256) (hne : addr' ≠ addr) :
    cmosRead (cmosWrite c v addr) addr' = cmosRead c addr' :=
  Function.update_of_ne (ofNat_ne h' h hne) ..

/-! ### The stored checksum -/

lemma rangeSum_congr (h : ∀ i, l.LB_CKS_RANGE_START ≤ i → i ≤ l.LB_CKS_RANGE_END →
    cmosRead c' i = cmosRead c i) : rangeSum l c' = rangeSum l c := by
  unfold rangeSum
  congr 1
  refine List.map_congr_left fun i hi => ?_
  rw [List.mem_range'_1] at hi
  rw [h i hi.1 (by omega)]

lemma split_join (sum : BitVec 16) : (((sum >>> 8).setWidth 8).setWidth 16 <<< 8) |||
    ((sum.setWidth 8).setWidth 16) = sum := by
  apply BitVec.eq_of_getLsbD_eq
  intro i hi
  simp only [BitVec.getLsbD_or, BitVec.getLsbD_shiftLeft, BitVec.getLsbD_setWidth,
    BitVec.getLsbD_ushiftRight]
  by_cases h : i < 8
  · simp [h, hi]
  · have h8 : i - 8 < 8 := by omega
    have hback : 8 + (i - 8) = i := by omega
    simp [h, hi, h8, hback, show i - 8 < 16 by omega]

lemma join_low (hi lo : BitVec 8) :
    ((hi.setWidth 16 <<< 8) ||| lo.setWidth 16).setWidth 8 = lo := by
  apply BitVec.eq_of_getLsbD_eq
  intro i h
  simp [h]

lemma join_high (hi lo : BitVec 8) :
    (((hi.setWidth 16 <<< 8) ||| lo.setWidth 16) >>> 8).setWidth 8 = hi := by
  apply BitVec.eq_of_getLsbD_eq
  intro i h
  simp [h, show 8 + i < 16 by omega]

/-- The checksum is not in the range. -/
lemma rtcSetChecksum_range (c : Cmos) {i : ℕ} (hlow : l.LB_CKS_RANGE_START ≤ i)
    (hhigh : i ≤ l.LB_CKS_RANGE_END) : cmosRead (rtcSetChecksum l c) i = cmosRead c i := by
  have hloc := l.loc_lt
  have := l.range_lt
  have := l.apart
  rw [rtcSetChecksum, cmosRead_cmosWrite_of_ne hloc (by omega) (by omega),
    cmosRead_cmosWrite_of_ne (by omega) (by omega) (by omega)]

lemma storedSum_set (c : Cmos) : storedSum l (rtcSetChecksum l c) = rangeSum l c := by
  have hloc := l.loc_lt
  have hhi : cmosRead (rtcSetChecksum l c) l.LB_CKS_LOC = (rangeSum l c >>> 8).setWidth 8 := by
    rw [rtcSetChecksum, cmosRead_cmosWrite_of_ne hloc (by omega) (by omega),
      cmosRead_cmosWrite_self]
  have hlo : cmosRead (rtcSetChecksum l c) (l.LB_CKS_LOC + 1) = (rangeSum l c).setWidth 8 :=
    cmosRead_cmosWrite_self
  rw [storedSum, hhi, hlo, split_join]

/-- The checksum that is stored is valid. -/
lemma rtcChecksumValid_set (c : Cmos) : rtcChecksumValid l (rtcSetChecksum l c) = true := by
  have hsum : rangeSum l (rtcSetChecksum l c) = rangeSum l c :=
    rangeSum_congr fun i hlow hhigh => rtcSetChecksum_range c hlow hhigh
  rw [rtcChecksumValid, hsum, storedSum_set, beq_self_eq_true]

/-! ### What is written -/

/-- The address is one of the range of the checksum. -/
def InCksRange (l : Layout) (addr : ℕ) : Prop :=
  l.LB_CKS_RANGE_START ≤ addr ∧ addr ≤ l.LB_CKS_RANGE_END

instance : Decidable (InCksRange l addr) := inferInstanceAs (Decidable (_ ∧ _))

/-- The byte that `set_cmos_value` compares with the range: that of a field of up to eight bits, and
the one behind a longer field. -/
def testedByte (bit length : ℕ) : ℕ := if length ≤ 8 then bit / 8 else bit / 8 + length / 8

/-- New bytes for some addresses. -/
abbrev Patch := BitVec 8 → Option (BitVec 8)

namespace Patch

def apply (p : Patch) (c : Cmos) : Cmos := fun addr => (p addr).getD (c addr)

/-- The sum of the new bytes in the range. -/
def newSum (l : Layout) (p : Patch) : BitVec 16 := rangeSum l fun addr => (p addr).getD 0

/-- The sum of the bytes in the range that they replace. -/
def oldSum (l : Layout) (p : Patch) (c : Cmos) : BitVec 16 :=
  rangeSum l fun addr => if (p addr).isSome then c addr else 0

/-- No byte of the stored checksum is replaced. -/
def Spares (l : Layout) (p : Patch) : Prop :=
  p (BitVec.ofNat 8 l.LB_CKS_LOC) = none ∧ p (BitVec.ofNat 8 (l.LB_CKS_LOC + 1)) = none

instance (p : Patch) : Decidable (p.Spares l) := inferInstanceAs (Decidable (_ ∧ _))

/-- What becomes of the stored checksum. -/
def storedWith (l : Layout) (p : Patch) (stored : BitVec 16) : BitVec 16 :=
  (((p (BitVec.ofNat 8 l.LB_CKS_LOC)).getD ((stored >>> 8).setWidth 8)).setWidth 16 <<< 8) |||
    ((p (BitVec.ofNat 8 (l.LB_CKS_LOC + 1))).getD (stored.setWidth 8)).setWidth 16

/-- The new bytes in the range sum to as much as those that they replace, or, if they replace some of
the stored checksum, too, to as much more as that becomes. -/
def Balanced (l : Layout) (p : Patch) (c : Cmos) (stored : BitVec 16) : Prop :=
  if p.Spares l then p.newSum l = p.oldSum l c
  else stored + p.newSum l = p.oldSum l c + p.storedWith l stored

instance (p : Patch) (stored : BitVec 16) : Decidable (p.Balanced l c stored) :=
  inferInstanceAs (Decidable (if p.Spares l then _ else _))

end Patch

/-- The new bytes of a field. Of a field that is longer than the CMOS the last bytes count. -/
def newBytes (c : Cmos) (bit length : ℕ) (ret : List (BitVec 8)) : Patch := fun addr =>
  if length ≤ 8 then
    if addr = BitVec.ofNat 8 (bit / 8) then
      ret.head?.map fun b : BitVec 8 => (c addr &&& ~~~mask bit length) ||| (b <<< (bit % 8))
    else none
  else
    ((List.range (length / 8)).reverse.find? fun i => BitVec.ofNat 8 (bit / 8 + i) = addr).map
      fun i => ret.getD i 0

/-- A field keeps the checksum: the byte that is compared is in the range, or the sum stays what it
was. -/
def KeepsAt (l : Layout) (c : Cmos) (bit length : ℕ) (ret : List (BitVec 8)) : Prop :=
  InCksRange l (testedByte bit length) ∨ (newBytes c bit length ret).Balanced l c (storedSum l c)

/-- The bit at which the terminator of a string is written. -/
def terminatorBit (ce : CmosEntry) : ℕ := Word.sub 32 (Word.add 32 ce.bit ce.length) 8

/-- A string of `len` bytes keeps the checksum. If the terminator is in the range, the checksum is that
of the CMOS with the terminator when the string is written, else the two are one change. -/
def KeepsString (l : Layout) (c : Cmos) (ce : CmosEntry) (len : ℕ) (value : List (BitVec 8)) : Prop :=
  let terminator := newBytes c (terminatorBit ce) 8 [0]
  let c₀ := terminator.apply c
  InCksRange l (testedByte ce.bit (stringLength ce len)) ∨
    if InCksRange l (terminatorBit ce / 8) then
      -- the CMOS matters for the new bytes only if the entry has a few bits
      (newBytes (rtcSetChecksum l c₀) ce.bit (stringLength ce len) value).Balanced l c₀ (rangeSum l c₀)
    else
      Patch.Balanced l (fun addr => (newBytes c₀ ce.bit (stringLength ce len) value addr).or
        (terminator addr)) c (storedSum l c)

/-- The same for a call of `set_option`. -/
def KeepsChecksum (l : Layout) (table : List CmosEntry) (c : Cmos)
    (call : List (BitVec 8) × List (BitVec 8)) : Prop :=
  ∀ ce ∈ findEntry table call.1,
    if ce.isString then ∀ len ∈ strlen call.2, KeepsString l c ce len call.2
    else KeepsAt l c ce.bit ce.length call.2

instance : Decidable (KeepsAt l c bit length ret) := inferInstanceAs (Decidable (_ ∨ _))

instance (len : ℕ) : Decidable (KeepsString l c ce len value) :=
  inferInstanceAs (Decidable (_ ∨ if InCksRange l (terminatorBit ce / 8) then Patch.Balanced l _ _ _
    else Patch.Balanced l _ _ _))

instance : DecidablePred (KeepsChecksum l table c) := fun call =>
  inferInstanceAs (Decidable (∀ ce ∈ findEntry table call.1, _))

lemma chksumUpdateNeeded_iff :
    chksumUpdateNeeded l bit length = true ↔ InCksRange l (testedByte bit length) := by
  rw [chksumUpdateNeeded, InCksRange, testedByte]
  split_ifs <;> simp

/-! ### The sum -/

lemma sum_apply (p : Patch) (c : Cmos) :
    rangeSum l (p.apply c) + p.oldSum l c = rangeSum l c + p.newSum l := by
  simp only [Patch.oldSum, Patch.newSum, rangeSum, ← List.sum_map_add]
  congr 1
  refine List.map_congr_left fun i _ => ?_
  simp only [cmosRead, Patch.apply]
  cases p (BitVec.ofNat 8 i) with
  | none => simp
  | some b => exact add_comm _ _

lemma storedSum_apply (p : Patch) (c : Cmos) :
    storedSum l (p.apply c) = p.storedWith l (storedSum l c) := by
  rw [Patch.storedWith, storedSum, storedSum, join_high, join_low]
  rfl

lemma storedWith_of_spares {p : Patch} (h : p.Spares l) (stored : BitVec 16) :
    p.storedWith l stored = stored := by
  rw [Patch.storedWith, h.1, h.2, Option.getD_none, Option.getD_none, split_join]

/-- Both cases are about the same sums. -/
lemma balanced_iff {p : Patch} {stored : BitVec 16} :
    p.Balanced l c stored ↔ stored + p.newSum l = p.oldSum l c + p.storedWith l stored := by
  rw [Patch.Balanced]
  split_ifs with hspares
  · rw [storedWith_of_spares hspares, add_comm stored]
    exact (add_left_inj stored).symm
  · rfl

/-- New bytes leave a valid checksum exactly if they are balanced. -/
lemma valid_apply_iff {p : Patch} (hc : rtcChecksumValid l c = true) :
    rtcChecksumValid l (p.apply c) = true ↔ p.Balanced l c (storedSum l c) := by
  rw [rtcChecksumValid, beq_iff_eq] at hc ⊢
  have hsum := sum_apply (l := l) p c
  rw [hc] at hsum
  rw [storedSum_apply, balanced_iff, ← hsum, add_comm (p.oldSum l c)]
  exact (add_left_inj _).symm

/-- What is balanced behind a new checksum. -/
lemma balanced_set {p : Patch} : p.Balanced l (rtcSetChecksum l c) (storedSum l (rtcSetChecksum l c)) ↔
    p.Balanced l c (rangeSum l c) := by
  have hold : p.oldSum l (rtcSetChecksum l c) = p.oldSum l c := by
    refine rangeSum_congr fun i hlow hhigh => ?_
    have hi := rtcSetChecksum_range c hlow hhigh
    simp only [cmosRead] at hi ⊢
    rw [hi]
  rw [Patch.Balanced, Patch.Balanced, hold, storedSum_set]

/-! ### Writing the bytes -/

lemma writeBytes_concat (c : Cmos) (byte : ℕ) (bs : List (BitVec 8)) (b : BitVec 8) :
    writeBytes c byte (bs ++ [b]) = cmosWrite (writeBytes c byte bs) b (byte + bs.length) := by
  induction bs generalizing c byte with
  | nil => rfl
  | cons b' bs ih =>
    rw [List.cons_append, writeBytes, writeBytes, ih, List.length_cons, Nat.add_right_comm,
      ← Nat.add_assoc]

/-- The last byte for an address counts. -/
lemma writeBytes_apply (c : Cmos) (byte : ℕ) (bs : List (BitVec 8)) (addr : BitVec 8) :
    writeBytes c byte bs addr =
      (((List.range bs.length).reverse.find? fun i => BitVec.ofNat 8 (byte + i) = addr).map
        fun i => bs.getD i 0).getD (c addr) := by
  induction bs using List.reverseRecOn with
  | nil => rfl
  | append_singleton bs b ih =>
    rw [writeBytes_concat, List.length_append, List.length_singleton, List.range_succ,
      List.reverse_append, List.reverse_singleton, List.singleton_append, List.find?_cons, cmosWrite]
    by_cases haddr : BitVec.ofNat 8 (byte + bs.length) = addr
    · subst haddr
      simp
    · rw [Function.update_of_ne (Ne.symm haddr), ih]
      simp only [haddr, decide_false]
      cases hfind : (List.range bs.length).reverse.find? fun i => BitVec.ofNat 8 (byte + i) = addr with
      | none => rfl
      | some i =>
        have hi : i < bs.length := by
          have := List.mem_of_find?_eq_some hfind
          simpa using this
        simp [List.getElem?_append_left hi]

/-- What is written are the new bytes. -/
lemma writeValue_eq (h : writeValue c bit length ret = some c') :
    c' = (newBytes c bit length ret).apply c := by
  funext addr
  simp only [Patch.apply, newBytes]
  simp only [writeValue] at h
  split_ifs at h ⊢ with hlength haddr hlong
  · obtain ⟨b, hb, rfl⟩ := Option.map_eq_some_iff.mp h
    rw [haddr, hb, cmosWrite, Function.update_self]
    rfl
  · obtain ⟨b, hb, rfl⟩ := Option.map_eq_some_iff.mp h
    rw [cmosWrite, Function.update_of_ne haddr]
    rfl
  · obtain rfl := Option.some.inj h
    have hlen : (ret.take (length / 8)).length = length / 8 := by
      rw [List.length_take]
      omega
    rw [writeBytes_apply, hlen]
    cases hfind : (List.range (length / 8)).reverse.find? fun i =>
        BitVec.ofNat 8 (bit / 8 + i) = addr with
    | none => rfl
    | some i =>
      have hi : i < length / 8 := by
        have := List.mem_of_find?_eq_some hfind
        simpa using this
      simp [List.getElem?_take_of_lt hi]

/-! ### Calls -/

/-- A successful call of `set_option`. -/
def setOptionStep (l : Layout) (table : List CmosEntry) (c : Cmos)
    (call : List (BitVec 8) × List (BitVec 8)) : Option Cmos :=
  match setOption l (some table) c call.1 call.2 with
  | some (.CB_SUCCESS, c') => some c'
  | _ => none

lemma setOptionStep_eq {call : List (BitVec 8) × List (BitVec 8)}
    (h : setOptionStep l table c call = some c') :
    setOption l (some table) c call.1 call.2 = some (.CB_SUCCESS, c') := by
  unfold setOptionStep at h
  split at h
  · rename_i c'' heq
    rw [heq, Option.some.inj h]
  · cases h

/-- What a successful call of `set_cmos_value` does. -/
lemma setCmosValue_success (h : setCmosValue l c bit length ret = some (.CB_SUCCESS, c')) :
    ∃ c₁, writeValue c bit length ret = some c₁ ∧
      c' = if chksumUpdateNeeded l bit length then rtcSetChecksum l c₁ else c₁ := by
  rw [setCmosValue] at h
  by_cases hshape : 8 < length ∧ (bit % 8 ≠ 0 ∨ length % 8 ≠ 0)
  · rw [if_pos hshape] at h
    cases h
  · rw [if_neg hshape] at h
    obtain ⟨c₁, hc₁, heq⟩ := Option.map_eq_some_iff.mp h
    exact ⟨c₁, hc₁, (Prod.mk.inj heq).2.symm⟩

lemma setCmosValue_valid_iff (hc : rtcChecksumValid l c = true)
    (h : setCmosValue l c bit length ret = some (.CB_SUCCESS, c')) :
    rtcChecksumValid l c' = true ↔ KeepsAt l c bit length ret := by
  obtain ⟨c₁, hc₁, rfl⟩ := setCmosValue_success h
  rw [KeepsAt, ← chksumUpdateNeeded_iff]
  split_ifs with hupdate
  · simp [hupdate, rtcChecksumValid_set]
  · rw [writeValue_eq hc₁, valid_apply_iff hc, or_iff_right hupdate]

lemma accessError_success {x : CbErr × Cmos} (h : accessError x = (.CB_SUCCESS, c')) :
    x = (.CB_SUCCESS, c') := by
  obtain ⟨e, c⟩ := x
  cases e <;> simp_all [accessError]

/-- What a successful call of `set_option` does. -/
lemma setOption_success (h : setOption l (some table) c name value = some (.CB_SUCCESS, c')) :
    ∃ ce, findEntry table name = some ce ∧
      if ce.isString then
        ∃ len c₁, strlen value = some len ∧ setTerminator l c ce = some (.CB_SUCCESS, c₁) ∧
          setCmosValue l c₁ ce.bit (stringLength ce len) value = some (.CB_SUCCESS, c')
      else
        setCmosValue l c ce.bit ce.length value = some (.CB_SUCCESS, c') := by
  simp only [setOption] at h
  cases hfind : findEntry table name with
  | none =>
    rw [hfind] at h
    cases h
  | some ce =>
    rw [hfind] at h
    refine ⟨ce, rfl, ?_⟩
    dsimp only at h
    split_ifs at h ⊢ with hstring
    · obtain ⟨len, hlen, h⟩ := Option.bind_eq_some_iff.mp h
      obtain ⟨⟨e, c₁⟩, hterm, h⟩ := Option.bind_eq_some_iff.mp h
      cases e <;> simp only [Option.some.injEq, Prod.mk.injEq, reduceCtorEq, false_and] at h
      obtain ⟨x, hx, h⟩ := Option.map_eq_some_iff.mp h
      exact ⟨len, c₁, hlen, hterm, hx.trans (congrArg some (accessError_success h))⟩
    · obtain ⟨x, hx, h⟩ := Option.map_eq_some_iff.mp h
      exact hx.trans (congrArg some (accessError_success h))

/-- Two changes of which the second one counts are one. -/
lemma apply_apply (p q : Patch) (c : Cmos) :
    q.apply (p.apply c) = Patch.apply (fun addr => (q addr).or (p addr)) c := by
  funext addr
  simp only [Patch.apply]
  cases q addr <;> rfl

/-- A string is written after its terminator, and after the checksum of that. -/
lemma setString_valid_iff {len : ℕ} (hc : rtcChecksumValid l c = true)
    (hterm : setTerminator l c ce = some (.CB_SUCCESS, c₁))
    (h : setCmosValue l c₁ ce.bit (stringLength ce len) value = some (.CB_SUCCESS, c')) :
    rtcChecksumValid l c' = true ↔ KeepsString l c ce len value := by
  obtain ⟨c₂, hc₂, heq⟩ := setCmosValue_success hterm
  obtain ⟨c₃, hc₃, rfl⟩ := setCmosValue_success h
  obtain rfl := writeValue_eq hc₂
  have htested : chksumUpdateNeeded l (terminatorBit ce) 8 = true ↔
      InCksRange l (terminatorBit ce / 8) := by
    rw [chksumUpdateNeeded_iff, testedByte, if_pos (by decide)]
  rw [KeepsString, ← chksumUpdateNeeded_iff]
  by_cases hupdate : chksumUpdateNeeded l ce.bit (stringLength ce len) = true
  · simp [hupdate, rtcChecksumValid_set]
  rw [if_neg hupdate, or_iff_right hupdate, writeValue_eq hc₃]
  by_cases hin : InCksRange l (terminatorBit ce / 8)
  · obtain rfl := heq.trans (if_pos (htested.mpr hin))
    rw [if_pos hin, valid_apply_iff (rtcChecksumValid_set _)]
    exact balanced_set
  · obtain rfl := heq.trans (if_neg (hin ∘ htested.mp))
    rw [if_neg hin, apply_apply, valid_apply_iff hc]
    rfl

/-- A successful call leaves a valid checksum exactly if it keeps it. -/
lemma setOption_valid_iff (hc : rtcChecksumValid l c = true)
    (h : setOption l (some table) c name value = some (.CB_SUCCESS, c')) :
    rtcChecksumValid l c' = true ↔ KeepsChecksum l table c (name, value) := by
  obtain ⟨ce, hfind, h⟩ := setOption_success h
  simp only [KeepsChecksum, hfind, Option.mem_def, Option.some.injEq, forall_eq']
  split_ifs at h ⊢ with hstring
  · obtain ⟨len, c₁, hlen, hterm, h⟩ := h
    simp only [hlen, Option.some.injEq, forall_eq']
    exact setString_valid_iff hc hterm h
  · exact setCmosValue_valid_iff hc h

/-- In a run of successful calls from a valid checksum it is valid after each of them exactly if
every call keeps it. -/
theorem checksum_valid_iff {calls : List (List (BitVec 8) × List (BitVec 8))}
    (hc : rtcChecksumValid l c = true) :
    (∀ p, p <+: calls → ∀ c' ∈ exec (setOptionStep l table) c p, rtcChecksumValid l c' = true) ↔
      Meets (setOptionStep l table) (KeepsChecksum l table) c calls := by
  refine prefix_iff_meets (I := fun c => rtcChecksumValid l c = true) (J := fun _ => True)
    (E := fun _ => True) (fun c call c' _ _ hsome => ⟨trivial, fun hvalid => ?_⟩) trivial hc
    fun _ _ => trivial
  exact setOption_valid_iff hvalid (setOptionStep_eq hsome)

/-! ### A field in the range and one that ends with it -/

/-- Eight bytes with a checksum behind them. -/
def exampleLayout : Layout := ⟨48, 55, 56, by decide, by decide, by decide⟩

/-- An option of four bits, one of the last two bytes of the range, and a string. -/
def exampleTable : List CmosEntry :=
  [⟨388, 4, 0x65, [0x62]⟩, ⟨432, 16, 0x68, [0x68]⟩, ⟨392, 32, 0x73, [0x73]⟩]

theorem checksum_valid_iff_four_bits :
    rtcChecksumValid exampleLayout (fun _ => 0) = true ∧
      ∀ p, p <+: [([0x62], [5]), ([0x62], [9])] →
        ∀ c' ∈ exec (setOptionStep exampleLayout exampleTable) (fun _ => 0) p,
          rtcChecksumValid exampleLayout c' = true :=
  ⟨by decide, (checksum_valid_iff (by decide)).mpr (by decide)⟩

/-- The checksum is stale after an option that ends with the range is set. -/
theorem not_checksum_valid_of_last_bytes :
    rtcChecksumValid exampleLayout (fun _ => 0) = true ∧
      (setOptionStep exampleLayout exampleTable (fun _ => 0) ([0x68], [1, 0])).map
        (rtcChecksumValid exampleLayout) = some false := by
  decide

end ApuBios.CmosOption
