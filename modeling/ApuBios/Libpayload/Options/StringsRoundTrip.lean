import ApuBios.Libpayload.Options.Agreement
import ApuBios.Libpayload.Options.Strings
import Mathlib.Data.List.TakeWhile

/-!
# Setting and getting an option as text

A value is got again exactly if the buffer it is converted to is large enough, its bits fit into the
entry, and the checksum leaves them.
-/

namespace ApuBios.Options

open CmosOption

/-! ### What is to hold -/

/-- The label is the text of the enum, up to its terminator or its end. -/
def CbCmosEnums.Carries (cmosEnum : CbCmosEnums) (label : List (BitVec 8)) : Prop :=
  cmosEnum.text.takeWhile (· ≠ 0) = label

instance (cmosEnum : CbCmosEnums) (label : List (BitVec 8)) : Decidable (cmosEnum.Carries label) :=
  inferInstanceAs (Decidable (_ = _))

/-- The label is one of an enum of the entry. -/
def Carried (table : CbCmosTable) (e : CbCmosEntries) (label : List (BitVec 8)) : Prop :=
  ∃ cmosEnum ∈ table.enums, cmosEnum.configId = e.configId ∧ cmosEnum.Carries label

/-- The value is representable in the entry, and the text is that value again: the decimal digits of a
number, and else the value itself. -/
inductive Denotes (table : CbCmosTable) (e : CbCmosEntries) (value : List (BitVec 8)) :
    (text : List (BitVec 8)) → Prop
  | number {n : ℕ} (hconfig : e.config = 0x68) (hnumber : numberOf value = some n)
      (hlt : n < 2 ^ e.length) : Denotes table e value (decimal n)
  | string (hconfig : e.config = 0x73) (hle : value.length * 8 ≤ e.length) :
      Denotes table e value value
  | label (hconfig : e.config = 0x65) (hcarried : Carried table e value) :
      Denotes table e value value

/-- A value that is representable is got again, a label of no enum is refused, and no byte outside of
the buffer is read. -/
structure Faithful (cks : CbCmosChecksum) (table : CbCmosTable) (c : Cmos) (e : CbCmosEntries)
    (name value : List (BitVec 8)) : Prop where
  keeps : ∀ text, Denotes table e value text →
    ∃ c', setOptionFromString cks table c value name = some (0, c') ∧
      getOptionAsString cks table c' name = some (0, some text)
  refuses : e.config = 0x65 → ¬Carried table e value →
    ∃ r, r ≠ 0 ∧ setOptionFromString cks table c value name = some (r, c)
  inside : (setOptionFromString cks table c value name).isSome

/-! ### When it holds -/

/-- A buffer has the bytes of the entry. -/
def InBuffer (e : CbCmosEntries) (size : ℕ) : Prop :=
  e.length ≤ 8 ∨ e.length % 8 = 0 ∧ e.length / 8 ≤ size

instance (e : CbCmosEntries) (size : ℕ) : Decidable (InBuffer e size) :=
  inferInstanceAs (Decidable (_ ∨ _))

/-- The CMOS with the bytes of a buffer in the entry. -/
def inPlace (c : Cmos) (e : CbCmosEntries) (raw : List (BitVec 8)) : Cmos :=
  if e.length ≤ 8 then
    cmosWrite c (withField (cmosRead c (e.bit / 8)) e.bit e.length (lowBits e.length (raw.headD 0)))
      (e.bit / 8)
  else
    writeBytes c (e.bit / 8) (raw.take (e.length / 8))

/-- The byte of the checksum that is stored at an address. -/
def checksumByte (l : Layout) (c : Cmos) (addr : ℕ) : Option (BitVec 8) :=
  if BitVec.ofNat 8 addr = BitVec.ofNat 8 (l.LB_CKS_LOC + 1) then some ((rangeSum l c).setWidth 8)
  else if BitVec.ofNat 8 addr = BitVec.ofNat 8 l.LB_CKS_LOC then
    some ((rangeSum l c >>> 8).setWidth 8)
  else none

/-- The field of an entry in its byte. -/
def fieldOf (e : CbCmosEntries) (b : BitVec 8) : BitVec 8 := lowBits e.length (b >>> (e.bit % 8))

/-- The entry holds all of the buffer: its bits do not run past the end of the byte, bytes at the same
address are the same, and so are those at the address of the checksum. -/
def Retains (l : Layout) (c : Cmos) (e : CbCmosEntries) (raw : List (BitVec 8)) : Prop :=
  if e.length ≤ 8 then
    match checksumByte l (inPlace c e raw) (e.bit / 8) with
    | some sum => fieldOf e sum = raw.headD 0
    | none => (raw.headD 0).toNat < 2 ^ (8 - e.bit % 8)
  else
    (∀ i, i + 256 < e.length / 8 → raw.getD i 0 = raw.getD (i + 256) 0) ∧
      ∀ i < e.length / 8, ∀ sum ∈ checksumByte l (inPlace c e raw) (e.bit / 8 + i),
        sum = raw.getD i 0

/-- The first byte that the entry holds. -/
def keptByte (l : Layout) (c : Cmos) (e : CbCmosEntries) (raw : List (BitVec 8)) : BitVec 8 :=
  match checksumByte l (inPlace c e raw) (e.bit / 8) with
  | some sum => if e.length ≤ 8 then fieldOf e sum else sum
  | none =>
    if e.length ≤ 8 then BitVec.ofNat 8 ((raw.headD 0).toNat % 2 ^ min e.length (8 - e.bit % 8))
    else raw.headD 0

/-- The enum that a label is taken for has a value that, as far as the entry holds it, is first found at
an enum with that label. -/
def LabelKept (l : Layout) (table : CbCmosTable) (c : Cmos) (e : CbCmosEntries)
    (label : List (BitVec 8)) : Prop :=
  ∃ m ∈ lookupCmosEnumByLabel table e.configId label,
    ∃ m' ∈ lookupCmosEnumByValue table e.configId (keptByte l c e (leBytes 4 m.value.toNat)),
      m'.Carries label ∧ 0 ∈ m'.text

/-- By the kind of the entry. -/
structure Kept (l : Layout) (table : CbCmosTable) (c : Cmos) (e : CbCmosEntries)
    (value : List (BitVec 8)) : Prop where
  number : e.config = 0x68 → InBuffer e 8 ∧
    ∀ n ∈ numberOf value, n < 2 ^ e.length → Retains l c e (leBytes 8 n)
  string : e.config = 0x73 → InBuffer e (value.length + 1) ∧
    (value.length * 8 ≤ e.length → Retains l c e (value ++ [0]))
  label : e.config = 0x65 → InBuffer e 4 ∧ Carried table e value ∧ LabelKept l table c e value

variable {l : Layout} {cks : CbCmosChecksum} {table : CbCmosTable} {c c' : Cmos}
  {e : CbCmosEntries} {name value raw back bs bs' : List (BitVec 8)} {addr byte n k : ℕ}

/-! ### Bytes -/

lemma cmosRead_rtcSetChecksum (l : Layout) (c : Cmos) (addr : ℕ) :
    cmosRead (rtcSetChecksum l c) addr = (checksumByte l c addr).getD (cmosRead c addr) := by
  rw [rtcSetChecksum, checksumByte, cmosRead, cmosWrite, cmosWrite, Function.update_apply,
    Function.update_apply]
  split_ifs <;> rfl

lemma writeBytes_of_notMem (h : ∀ i < bs.length, BitVec.ofNat 8 addr ≠ BitVec.ofNat 8 (byte + i)) :
    cmosRead (writeBytes c byte bs) addr = cmosRead c addr := by
  induction bs generalizing c byte with
  | nil => rfl
  | cons b bs ih =>
    have hfirst : BitVec.ofNat 8 addr ≠ BitVec.ofNat 8 byte := h 0 (Nat.succ_pos _)
    rw [writeBytes, ih]
    · exact Function.update_of_ne hfirst ..
    · intro i hi
      have hnext := h (i + 1) (Nat.succ_lt_succ hi)
      rwa [Nat.add_comm i 1, ← Nat.add_assoc] at hnext

/-- What is written is there, if bytes at the same address are the same. -/
lemma writeBytes_getD (h : ∀ i, i + 256 < bs.length → bs.getD i 0 = bs.getD (i + 256) 0)
    (hk : k < bs.length) : cmosRead (writeBytes c byte bs) (byte + k) = bs.getD k 0 := by
  induction bs generalizing c byte k with
  | nil => cases hk
  | cons b bs ih =>
    rw [List.length_cons] at hk
    have htail : ∀ i, i + 256 < bs.length → bs.getD i 0 = bs.getD (i + 256) 0 := by
      intro i hi
      have hnext := h (i + 1) (by rw [List.length_cons]; omega)
      rwa [List.getD_cons_succ, Nat.add_right_comm, List.getD_cons_succ] at hnext
    cases k with
    | succ k =>
      rw [writeBytes, List.getD_cons_succ, Nat.add_comm k 1, ← Nat.add_assoc]
      exact ih htail (by omega)
    | zero =>
      change cmosRead (writeBytes (cmosWrite c b byte) (byte + 1) bs) byte = b
      by_cases hlong : 255 < bs.length
      · -- the last byte that is written to the address is 256 further
        have hsame : cmosRead (writeBytes (cmosWrite c b byte) (byte + 1) bs) byte =
            cmosRead (writeBytes (cmosWrite c b byte) (byte + 1) bs) (byte + 1 + 255) := by
          rw [cmosRead, cmosRead, Nat.add_assoc, BitVec.ofNat_add]
          simp
        have hfirst := h 0 (by rw [List.length_cons]; omega)
        rw [hsame, ih htail hlong]
        exact hfirst.symm
      · rw [writeBytes_of_notMem]
        · exact Function.update_self ..
        · intro i hi heq
          have hmod := congrArg BitVec.toNat heq
          rw [BitVec.toNat_ofNat, BitVec.toNat_ofNat] at hmod
          omega

/-- The bytes are there after the checksum has been stored, if and only if they may be. -/
lemma retains_bytes_iff :
    (∀ i < bs.length, cmosRead (rtcSetChecksum l (writeBytes c byte bs)) (byte + i) = bs.getD i 0) ↔
      (∀ i, i + 256 < bs.length → bs.getD i 0 = bs.getD (i + 256) 0) ∧
        ∀ i < bs.length, ∀ sum ∈ checksumByte l (writeBytes c byte bs) (byte + i),
          sum = bs.getD i 0 := by
  constructor
  · intro h
    refine ⟨?_, ?_⟩
    · intro i hi
      rw [← h i (by omega), ← h (i + 256) hi, cmosRead, cmosRead, ← Nat.add_assoc,
        BitVec.ofNat_add (byte + i)]
      simp
    · intro i hi sum hsum
      have hread := h i hi
      rw [cmosRead_rtcSetChecksum, Option.mem_def.mp hsum] at hread
      exact hread
  · rintro ⟨hsame, hchecksum⟩ i hi
    rw [cmosRead_rtcSetChecksum]
    cases hsum : checksumByte l (writeBytes c byte bs) (byte + i) with
    | some sum => exact hchecksum i hi sum hsum
    | none => exact writeBytes_getD hsame hi

/-! ### Bits -/

/-- The bits of a field that do not run past the end of the byte. -/
lemma fieldOf_withField (hlength : e.length ≤ 8) (old b : BitVec 8) :
    fieldOf e (withField old e.bit e.length (lowBits e.length b)) =
      BitVec.ofNat 8 (b.toNat % 2 ^ min e.length (8 - e.bit % 8)) := by
  apply BitVec.eq_of_getLsbD_eq
  intro i hi
  rw [fieldOf, lowBits, BitVec.getLsbD_and, getLsbD_lowMask _ hlength i hi, BitVec.getLsbD_ushiftRight,
    BitVec.getLsbD_ofNat, Nat.testBit_mod_two_pow, BitVec.testBit_toNat]
  by_cases hlen : i < e.length
  · by_cases hend : e.bit % 8 + i < 8
    · have hmask : (mask e.bit e.length).getLsbD (e.bit % 8 + i) = true := by
        rw [mask, BitVec.getLsbD_shiftLeft, Nat.add_sub_cancel_left, getLsbD_lowMask _ hlength i hi]
        simp [hend, hlen]
      rw [withField, BitVec.getLsbD_or, BitVec.getLsbD_and, BitVec.getLsbD_not,
        hmask, BitVec.getLsbD_shiftLeft, Nat.add_sub_cancel_left, lowBits, BitVec.getLsbD_and,
        getLsbD_lowMask _ hlength i hi]
      simp [hlen, hend, hi, show i < 8 - e.bit % 8 by omega]
    · rw [BitVec.getLsbD_of_ge _ _ (by omega)]
      simp [show ¬i < 8 - e.bit % 8 by omega]
  · simp [hlen]

/-- Bits that fit into the field and into the rest of the byte are kept. -/
lemma ofNat_mod_eq_iff {b : BitVec 8} (hb : b.toNat < 2 ^ e.length) :
    BitVec.ofNat 8 (b.toNat % 2 ^ min e.length (8 - e.bit % 8)) = b ↔
      b.toNat < 2 ^ (8 - e.bit % 8) := by
  have hlt : b.toNat % 2 ^ min e.length (8 - e.bit % 8) < 2 ^ 8 :=
    (Nat.mod_le _ _).trans_lt b.isLt
  rw [← BitVec.toNat_inj, BitVec.toNat_ofNat, Nat.mod_eq_of_lt hlt]
  constructor
  · intro h
    rw [← h]
    exact (Nat.mod_lt _ (Nat.two_pow_pos _)).trans_le
      (Nat.pow_le_pow_right two_pos (min_le_right _ _))
  · intro h
    apply Nat.mod_eq_of_lt
    rcases min_choice e.length (8 - e.bit % 8) with hmin | hmin
    · rw [hmin]
      exact hb
    · rw [hmin]
      exact h

/-! ### The entry -/

/-- The number of bytes that are read. -/
def size (e : CbCmosEntries) : ℕ := if e.length ≤ 8 then 1 else e.length / 8

lemma setCmosValue_eq_inPlace (hne : raw ≠ []) : setCmosValue c e.bit e.length raw =
    if InBuffer e raw.length then some (inPlace c e raw) else none := by
  by_cases hlength : e.length ≤ 8
  · obtain ⟨b, bs, rfl⟩ := List.exists_cons_of_ne_nil hne
    rw [setCmosValue_bits hlength, if_pos (.inl hlength), inPlace, if_pos hlength]
    rfl
  · rw [setCmosValue_bytes hlength, inPlace, if_neg hlength]
    simp only [InBuffer, hlength, false_or]

lemma map_range_eq_iff {f : ℕ → BitVec 8} :
    (List.range bs.length).map f = bs ↔ ∀ i < bs.length, f i = bs.getD i 0 := by
  rw [List.ext_getElem_iff]
  simp only [List.length_map, List.length_range, List.getElem_map, List.getElem_range, true_and]
  refine forall_congr' fun i => ⟨fun h hi => ?_, fun h hi _ => ?_⟩
  · rw [h hi hi, List.getD_eq_getElem]
  · rw [h hi, List.getD_eq_getElem]

/-- What is read from the entry, after a buffer has been set and the checksum has been stored. -/
lemma exists_back (hne : raw ≠ []) (hin : InBuffer e raw.length) :
    ∃ back, getCmosValue (rtcSetChecksum l (inPlace c e raw)) e.bit e.length = some back ∧
      back.length = size e ∧
      ((e.length ≤ 8 → (raw.headD 0).toNat < 2 ^ e.length) →
        (back = raw.take (size e) ↔ Retains l c e raw)) ∧
      (e.length / 8 ≤ 256 → back.headD 0 = keptByte l c e raw) := by
  rw [getCmosValue, Retains, keptByte, size]
  by_cases hlength : e.length ≤ 8
  · obtain ⟨b, bs, rfl⟩ := List.exists_cons_of_ne_nil hne
    have hfield : (cmosRead (rtcSetChecksum l (inPlace c e (b :: bs))) (e.bit / 8) >>> (e.bit % 8)) &&&
        ((1#8 <<< e.length) - 1) =
          match checksumByte l (inPlace c e (b :: bs)) (e.bit / 8) with
          | some sum => fieldOf e sum
          | none => BitVec.ofNat 8 (b.toNat % 2 ^ min e.length (8 - e.bit % 8)) := by
      change fieldOf e (cmosRead _ (e.bit / 8)) = _
      rw [cmosRead_rtcSetChecksum]
      cases checksumByte l (inPlace c e (b :: bs)) (e.bit / 8) with
      | some sum => rfl
      | none =>
        rw [inPlace, if_pos hlength, Option.getD_none, cmosRead_cmosWrite_self]
        exact fieldOf_withField hlength _ _
    refine ⟨_, if_pos hlength, by simp [hlength], ?_, ?_⟩
    · intro hb
      rw [hfield]
      simp only [hlength, if_true, List.take_succ_cons, List.take_zero, List.headD_cons]
      cases checksumByte l (inPlace c e (b :: bs)) (e.bit / 8) with
      | some sum => simp
      | none =>
        simp only [List.cons.injEq, and_true]
        exact ofNat_mod_eq_iff (hb hlength)
    · intro _
      rw [hfield]
      cases checksumByte l (inPlace c e (b :: bs)) (e.bit / 8) <;> simp [hlength]
  · obtain ⟨hmod, hle⟩ := hin.resolve_left hlength
    have hlen : (raw.take (e.length / 8)).length = e.length / 8 := by
      rw [List.length_take, min_eq_left hle]
    have hgetD : ∀ i < e.length / 8, (raw.take (e.length / 8)).getD i 0 = raw.getD i 0 := by
      intro i hi
      rw [List.getD_eq_getElem?_getD, List.getD_eq_getElem?_getD, List.getElem?_take_of_lt hi]
    have hplace : inPlace c e raw = writeBytes c (e.bit / 8) (raw.take (e.length / 8)) := by
      rw [inPlace, if_neg hlength]
    simp only [hlength, hmod, if_false, ne_eq, not_true_eq_false]
    refine ⟨_, rfl, by simp, ?_, ?_⟩
    · intro _
      have hiff := @retains_bytes_iff l c (raw.take (e.length / 8)) (e.bit / 8)
      rw [← map_range_eq_iff, hlen, ← hplace] at hiff
      rw [hiff]
      refine and_congr (forall_congr' fun i => forall_congr' fun hi => ?_)
        (forall_congr' fun i => forall_congr' fun hi => ?_)
      · rw [hgetD i (by omega), hgetD (i + 256) hi]
      · rw [hgetD i hi]
    · intro hshort
      obtain ⟨n, hn⟩ : ∃ n, e.length / 8 = n + 1 := ⟨e.length / 8 - 1, by omega⟩
      have hwritten : cmosRead (inPlace c e raw) (e.bit / 8) = raw.headD 0 := by
        have hread := @writeBytes_getD c (raw.take (e.length / 8)) (e.bit / 8) 0
          (fun i hi => absurd hi (by omega)) (by omega)
        rw [hgetD 0 (by omega), ← hplace] at hread
        rw [List.headD_eq_head?_getD, List.head?_eq_getElem?, ← List.getD_eq_getElem?_getD]
        exact hread
      rw [hn, List.range_succ_eq_map, List.map_cons, List.headD_cons, Nat.add_zero,
        cmosRead_rtcSetChecksum, hwritten]
      cases checksumByte l (inPlace c e raw) (e.bit / 8) <;> rfl

/-! ### Buffers -/

@[simp] lemma length_leBytes (k n : ℕ) : (leBytes k n).length = k := by
  rw [leBytes, List.length_map, Aml.length_leBytes]

lemma ofLe_lt (bs : List (BitVec 8)) : ofLe bs < 256 ^ bs.length := by
  have hlt := Aml.ofLe_lt (bs.map UInt8.ofBitVec)
  rwa [List.length_map] at hlt

lemma ofLe_eq_iff (h : n < 256 ^ bs.length) : ofLe bs = n ↔ bs = leBytes bs.length n := by
  constructor
  · rintro rfl
    have hbytes := Aml.leBytes_ofLe (bs.map UInt8.ofBitVec)
    rw [List.length_map] at hbytes
    rw [ofLe, leBytes, hbytes, List.map_map]
    simp [Function.comp_def]
  · intro hbs
    rw [hbs, ofLe, leBytes, List.map_map]
    simpa [Function.comp_def] using Aml.ofLe_leBytes h

/-- The bytes behind those of a number are zero. -/
lemma leBytes_append (j : ℕ) (hn : n < 256 ^ k) :
    leBytes (k + j) n = leBytes k n ++ List.replicate j 0 := by
  rw [leBytes, Aml.leBytes_add, Nat.div_eq_of_lt hn, Aml.leBytes_zero, List.map_append,
    List.map_replicate]
  rfl

lemma take_rawBuffer (hlength : back.length = size e) (hk : size e ≤ 8) :
    (rawBuffer e.length back).take 8 = back ++ List.replicate (8 - size e) 0 := by
  rw [rawBuffer, List.take_append, hlength, List.take_of_length_le (by omega), List.take_replicate]
  congr 2
  omega

/-- The number of the buffer is the one that has been set, if and only if the bytes are. -/
lemma ofLe_rawBuffer_iff (hlength : back.length = size e) (hk : size e ≤ 8) (hn : n < 256 ^ size e) :
    ofLe ((rawBuffer e.length back).take 8) = n ↔ back = (leBytes 8 n).take (size e) := by
  have hbuffer : ((rawBuffer e.length back).take 8).length = 8 := by
    rw [take_rawBuffer hlength hk, List.length_append, List.length_replicate]
    omega
  have hlt : n < 256 ^ ((rawBuffer e.length back).take 8).length := by
    rw [hbuffer]
    exact hn.trans_le (Nat.pow_le_pow_right (by decide) hk)
  have height := leBytes_append (8 - size e) hn
  rw [Nat.add_sub_cancel' hk] at height
  rw [ofLe_eq_iff hlt, hbuffer, take_rawBuffer hlength hk, height,
    List.append_left_inj, List.take_append_of_le_length (by simp),
    List.take_of_length_le (by simp)]

/-- A copy is the string that is in the buffer before its first zero. -/
lemma strdup_eq_some_iff (hvalue : (0 : BitVec 8) ∉ value) :
    strdup bs = some value ↔ value ++ [0] <+: bs := by
  rw [strdup]
  constructor
  · intro h
    split_ifs at h with hzero
    obtain rfl := Option.some.inj h
    have hne : bs.dropWhile (· ≠ 0) ≠ [] := by
      rw [ne_eq, List.dropWhile_eq_nil_iff, not_forall]
      exact ⟨0, by simpa using hzero⟩
    obtain ⟨b, rest, hrest⟩ := List.exists_cons_of_ne_nil hne
    obtain rfl : b = 0 := by
      have hhead := List.head?_dropWhile_not (· ≠ (0 : BitVec 8)) bs
      rw [hrest, List.head?_cons] at hhead
      simpa using hhead
    refine ⟨rest, ?_⟩
    rw [List.append_assoc, List.singleton_append, ← hrest, List.takeWhile_append_dropWhile]
  · rintro ⟨rest, rfl⟩
    rw [if_pos (by simp), List.append_assoc, List.takeWhile_append_of_pos]
    · simp
    · intro b hb
      simp only [ne_eq, decide_eq_true_eq]
      rintro rfl
      exact hvalue hb

/-- The string of the buffer is the one that has been set, if and only if the bytes are. -/
lemma strdup_rawBuffer_iff (hvalue : (0 : BitVec 8) ∉ value) (hlength : back.length = size e)
    (hle : value.length ≤ size e) (hge : size e ≤ value.length + 1) :
    strdup (rawBuffer e.length back) = some value ↔ back = (value ++ [0]).take (size e) := by
  obtain ⟨m, hm⟩ : ∃ m, rawBuffer e.length back = back ++ 0 :: List.replicate m 0 := by
    have hsize : size e ≤ max ((e.length + 7) / 8) 8 := by
      rw [size]
      split_ifs <;> omega
    refine ⟨max ((e.length + 7) / 8) 8 - size e, ?_⟩
    rw [← List.replicate_succ, rawBuffer, hlength]
    congr 2
    omega
  rw [strdup_eq_some_iff hvalue, hm]
  constructor
  · intro h
    rw [List.prefix_iff_eq_take.mp h, List.take_take, List.length_append, List.length_singleton,
      min_eq_left hge, List.take_append_of_le_length hlength.ge, ← hlength, List.take_length]
  · intro h
    rcases Nat.lt_or_eq_of_le hle with hlt | heq
    · rw [List.take_of_length_le (by simp; omega)] at h
      rw [h]
      exact List.prefix_append _ _
    · rw [List.take_append_of_le_length heq.ge, ← heq, List.take_length] at h
      rw [h]
      exact ⟨List.replicate m 0, by simp⟩

/-! ### The functions -/

lemma lookupCmosEntry_toOptionTable (table : CbCmosTable) (name : List (BitVec 8)) :
    lookupCmosEntry table.toOptionTable name = (table.lookupEntry name).map (·.toCmosEntry) := by
  rw [lookupCmosEntry, CbCmosTable.lookupEntry, CbCmosTable.toOptionTable]
  cases table.entries with
  | nil =>
    change ([table.behindEntries].map (·.toCmosEntry)).find? _ = _
    rw [List.find?_map]
    rfl
  | cons ce entries =>
    change ((ce :: entries).map (·.toCmosEntry)).find? _ = _
    rw [List.find?_map]
    rfl

lemma optionsChecksumValid_eq (h : Exports l cks) (c : Cmos) :
    optionsChecksumValid cks c = rtcChecksumValid l c := by
  simp only [optionsChecksumValid, h.rangeStart, h.rangeEnd, h.location]
  exact Bool.beq_comm

lemma setOptionWith_eq (hcks : Exports l cks) (hlookup : table.lookupEntry name = some e)
    (hne : raw ≠ []) : setOptionWith cks table.toOptionTable c raw name =
      if InBuffer e raw.length then some (0, rtcSetChecksum l (inPlace c e raw)) else none := by
  have hentry : lookupCmosEntry table.toOptionTable name = some e.toCmosEntry := by
    rw [lookupCmosEntry_toOptionTable, hlookup, Option.map_some]
  simp only [setOptionWith, hentry, setCmosValue_eq_inPlace hne]
  split_ifs
  · rw [Option.map_some, fixOptionsChecksumWith_eq hcks]
  · rfl

/-- What is read from the entry is converted, and the checksum is valid. -/
lemma getOptionAsString_eq (hcks : Exports l cks) (hlookup : table.lookupEntry name = some e)
    (hback : getCmosValue (rtcSetChecksum l c) e.bit e.length = some back) :
    (e.config = 0x68 → getOptionAsString cks table (rtcSetChecksum l c) name =
      some (0, some (printNumber (ofLe ((rawBuffer e.length back).take 8))))) ∧
    (e.config = 0x73 → getOptionAsString cks table (rtcSetChecksum l c) name =
      (strdup (rawBuffer e.length back)).map fun dest => (0, some dest)) ∧
    (e.config = 0x65 → getOptionAsString cks table (rtcSetChecksum l c) name =
      (lookupCmosEnumByValue table e.configId ((rawBuffer e.length back).headD 0)).bind fun m =>
        (strdup m.text).map fun dest => (0, some dest)) := by
  have hvalid : optionsChecksumValid cks (rtcSetChecksum l c) = true := by
    rw [optionsChecksumValid_eq hcks, rtcChecksumValid_set]
  simp only [getOptionAsString, hlookup, hback, Option.bind_some, hvalid, if_true]
  refine ⟨?_, ?_, ?_⟩ <;> intro hconfig <;> simp [hconfig]

/-! ### Numbers -/

/-- The number that is got is the one that has been set, if and only if the entry holds it. -/
lemma getOptionAsString_number_iff (hcks : Exports l cks)
    (hlookup : table.lookupEntry name = some e) (hconfig : e.config = 0x68) (hin : InBuffer e 8)
    (hlt : n < 2 ^ e.length) :
    getOptionAsString cks table (rtcSetChecksum l (inPlace c e (leBytes 8 n))) name =
      some (0, some (decimal n)) ↔ Retains l c e (leBytes 8 n) := by
  have hne : leBytes 8 n ≠ [] := List.ne_nil_of_length_pos (by simp)
  obtain ⟨back, hback, hlength, hretains, -⟩ :=
    @exists_back l c e _ hne (by rwa [length_leBytes])
  have hsize : size e ≤ 8 := by
    rw [size]
    split_ifs with hshort
    · decide
    · exact (hin.resolve_left hshort).2
  have hn : n < 256 ^ size e := by
    rw [show 256 = 2 ^ 8 from rfl, ← pow_mul, size]
    split_ifs with hshort
    · exact hlt.trans_le (Nat.pow_le_pow_right two_pos (by omega))
    · have hmod := (hin.resolve_left hshort).1
      exact hlt.trans_le (Nat.pow_le_pow_right two_pos (by omega))
  have hbits : e.length ≤ 8 → ((leBytes 8 n).headD 0).toNat < 2 ^ e.length := by
    intro hshort
    change (BitVec.ofNat 8 n).toNat < _
    rw [BitVec.toNat_ofNat]
    exact (Nat.mod_le _ _).trans_lt hlt
  have hprint : printNumber (ofLe ((rawBuffer e.length back).take 8)) =
      decimal (ofLe ((rawBuffer e.length back).take 8)) := by
    apply printNumber_eq
    refine (ofLe_lt _).trans_le ?_
    rw [show 2 ^ 64 = 256 ^ 8 from rfl]
    exact Nat.pow_le_pow_right (by decide) (List.length_take_le _ _)
  rw [(getOptionAsString_eq hcks hlookup hback).1 hconfig, hprint, ← hretains hbits,
    ← ofLe_rawBuffer_iff hlength hsize hn]
  constructor
  · intro h
    exact decimal_inj (Option.some.inj (Prod.mk.inj (Option.some.inj h)).2)
  · intro h
    rw [h]

lemma faithful_number_iff (hcks : Exports l cks) (hlookup : table.lookupEntry name = some e)
    (hconfig : e.config = 0x68) :
    Faithful cks table c e name value ↔ InBuffer e 8 ∧
      ∀ n ∈ numberOf value, n < 2 ^ e.length → Retains l c e (leBytes 8 n) := by
  have hset : setOptionFromString cks table c value name = if InBuffer e 8 then
      some (0, rtcSetChecksum l (inPlace c e (leBytes 8 (strtoull value)))) else none := by
    have hwith := @setOptionWith_eq l cks table c e name (leBytes 8 (strtoull value)) hcks hlookup
      (List.ne_nil_of_length_pos (by simp))
    rw [length_leBytes] at hwith
    simp only [setOptionFromString, hlookup, hconfig, if_true, hwith]
  have hread : InBuffer e 8 → ∀ n ∈ numberOf value, n < 2 ^ e.length → strtoull value = n := by
    intro hin n hn hlt
    have h64 : e.length ≤ 64 := by
      rcases hin with h | h <;> omega
    rw [strtoull_eq hn, Nat.mod_eq_of_lt (hlt.trans_le (Nat.pow_le_pow_right two_pos h64))]
  constructor
  · intro h
    have hin : InBuffer e 8 := by
      by_contra hout
      have hinside := h.inside
      rw [hset, if_neg hout] at hinside
      cases hinside
    refine ⟨hin, fun n hn hlt => ?_⟩
    obtain ⟨c', hc', hget⟩ := h.keeps _ (.number hconfig hn hlt)
    rw [hset, if_pos hin, hread hin n hn hlt] at hc'
    obtain rfl := (Prod.mk.inj (Option.some.inj hc')).2
    exact (getOptionAsString_number_iff hcks hlookup hconfig hin hlt).mp hget
  · rintro ⟨hin, hretains⟩
    rw [if_pos hin] at hset
    refine ⟨?_, ?_, by rw [hset]; rfl⟩
    · intro text htext
      cases htext with
      | @number n _ hn hlt =>
        refine ⟨_, hset, ?_⟩
        rw [hread hin n hn hlt]
        exact (getOptionAsString_number_iff hcks hlookup hconfig hin hlt).mpr (hretains n hn hlt)
      | string hother => exact absurd (hconfig.symm.trans hother) (by decide)
      | label hother => exact absurd (hconfig.symm.trans hother) (by decide)
    · intro hother
      exact absurd (hconfig.symm.trans hother) (by decide)

/-! ### Strings -/

/-- The string that is got is the one that has been set, if and only if the entry holds it. -/
lemma getOptionAsString_string_iff (hcks : Exports l cks)
    (hlookup : table.lookupEntry name = some e) (hconfig : e.config = 0x73)
    (hvalue : (0 : BitVec 8) ∉ value) (hin : InBuffer e (value.length + 1))
    (hle : value.length * 8 ≤ e.length) :
    getOptionAsString cks table (rtcSetChecksum l (inPlace c e (value ++ [0]))) name =
      some (0, some value) ↔ Retains l c e (value ++ [0]) := by
  obtain ⟨back, hback, hlength, hretains, -⟩ :=
    @exists_back l c e (value ++ [0]) (by simp) (by simpa using hin)
  have hsize : value.length ≤ size e ∧ size e ≤ value.length + 1 := by
    rw [size]
    split_ifs with hshort
    · omega
    · obtain ⟨hmod, hlast⟩ := hin.resolve_left hshort
      omega
  have hbits : e.length ≤ 8 → ((value ++ [0]).headD 0).toNat < 2 ^ e.length := by
    intro hshort
    cases value with
    | nil => exact Nat.two_pow_pos _
    | cons b bs =>
      rw [List.length_cons] at hle
      obtain h8 : e.length = 8 := by omega
      rw [h8]
      exact b.isLt
  rw [(getOptionAsString_eq hcks hlookup hback).2.1 hconfig, ← hretains hbits,
    ← strdup_rawBuffer_iff hvalue hlength hsize.1 hsize.2, Option.map_eq_some_iff]
  constructor
  · rintro ⟨dest, hdest, heq⟩
    rw [hdest, Option.some.inj (Prod.mk.inj heq).2]
  · intro h
    exact ⟨value, h, rfl⟩

lemma faithful_string_iff (hcks : Exports l cks) (hlookup : table.lookupEntry name = some e)
    (hconfig : e.config = 0x73) (hvalue : (0 : BitVec 8) ∉ value) :
    Faithful cks table c e name value ↔ InBuffer e (value.length + 1) ∧
      (value.length * 8 ≤ e.length → Retains l c e (value ++ [0])) := by
  have hset : setOptionFromString cks table c value name = if InBuffer e (value.length + 1) then
      some (0, rtcSetChecksum l (inPlace c e (value ++ [0]))) else none := by
    have hwith := @setOptionWith_eq l cks table c e name (value ++ [0]) hcks hlookup (by simp)
    rw [List.length_append, List.length_singleton] at hwith
    simp only [setOptionFromString, hlookup, hconfig, hwith]
    rfl
  constructor
  · intro h
    have hin : InBuffer e (value.length + 1) := by
      by_contra hout
      have hinside := h.inside
      rw [hset, if_neg hout] at hinside
      cases hinside
    refine ⟨hin, fun hle => ?_⟩
    obtain ⟨c', hc', hget⟩ := h.keeps _ (.string hconfig hle)
    rw [hset, if_pos hin] at hc'
    obtain rfl := (Prod.mk.inj (Option.some.inj hc')).2
    exact (getOptionAsString_string_iff hcks hlookup hconfig hvalue hin hle).mp hget
  · rintro ⟨hin, hretains⟩
    rw [if_pos hin] at hset
    refine ⟨?_, ?_, by rw [hset]; rfl⟩
    · intro text htext
      cases htext with
      | number hother => exact absurd (hconfig.symm.trans hother) (by decide)
      | string _ hle =>
        exact ⟨_, hset,
          (getOptionAsString_string_iff hcks hlookup hconfig hvalue hin hle).mpr (hretains hle)⟩
      | label hother => exact absurd (hconfig.symm.trans hother) (by decide)
    · intro hother
      exact absurd (hconfig.symm.trans hother) (by decide)

/-! ### Labels -/

/-- A copy of the text is the label, if and only if the text has a terminator and is the label. -/
lemma strdup_text_iff {m : CbCmosEnums} :
    strdup m.text = some value ↔ m.Carries value ∧ 0 ∈ m.text := by
  rw [strdup, CbCmosEnums.Carries]
  split_ifs with hzero
  · rw [and_iff_left (List.contains_iff_mem.mp hzero), Option.some_inj]
  · exact iff_of_false (by simp) fun h => hzero (List.contains_iff_mem.mpr h.2)

lemma getOptionAsString_label_iff (hcks : Exports l cks)
    (hlookup : table.lookupEntry name = some e) (hconfig : e.config = 0x65) (hin : InBuffer e 4)
    (m : CbCmosEnums) :
    getOptionAsString cks table (rtcSetChecksum l (inPlace c e (leBytes 4 m.value.toNat))) name =
        some (0, some value) ↔
      ∃ m' ∈ lookupCmosEnumByValue table e.configId (keptByte l c e (leBytes 4 m.value.toNat)),
        m'.Carries value ∧ 0 ∈ m'.text := by
  obtain ⟨back, hback, hlength, -, hhead⟩ :=
    @exists_back l c e (leBytes 4 m.value.toNat) (List.ne_nil_of_length_pos (by simp))
      (by rwa [length_leBytes])
  have hfirst : (rawBuffer e.length back).headD 0 = keptByte l c e (leBytes 4 m.value.toNat) := by
    rw [← hhead (by rcases hin with h | h <;> omega)]
    cases back with
    | nil =>
      rw [List.length_nil, size] at hlength
      split_ifs at hlength
      omega
    | cons b bs => rfl
  rw [(getOptionAsString_eq hcks hlookup hback).2.2 hconfig, hfirst, Option.bind_eq_some_iff]
  refine exists_congr fun m' => and_congr Iff.rfl ?_
  rw [← strdup_text_iff, Option.map_eq_some_iff]
  constructor
  · rintro ⟨dest, hdest, heq⟩
    rw [hdest, Option.some.inj (Prod.mk.inj heq).2]
  · intro h
    exact ⟨value, h, rfl⟩

lemma faithful_label_iff (hcks : Exports l cks) (hlookup : table.lookupEntry name = some e)
    (hconfig : e.config = 0x65) :
    Faithful cks table c e name value ↔
      InBuffer e 4 ∧ Carried table e value ∧ LabelKept l table c e value := by
  have hset : setOptionFromString cks table c value name =
      (lookupCmosEnumByLabel table e.configId value).bind fun m => if InBuffer e 4 then
        some (0, rtcSetChecksum l (inPlace c e (leBytes 4 m.value.toNat))) else none := by
    have hwith (m : CbCmosEnums) := @setOptionWith_eq l cks table c e name
      (leBytes 4 m.value.toNat) hcks hlookup (List.ne_nil_of_length_pos (by simp))
    simp only [length_leBytes] at hwith
    simp only [setOptionFromString, hlookup, hconfig, hwith]
    rfl
  constructor
  · intro h
    -- what is returned is never an error
    obtain ⟨⟨r, c'⟩, hsome⟩ := Option.isSome_iff_exists.mp h.inside
    have hresult := hsome
    rw [hset, Option.bind_eq_some_iff] at hresult
    obtain ⟨m, hm, hresult⟩ := hresult
    split_ifs at hresult with hin
    have hcarried : Carried table e value := by
      by_contra hnot
      obtain ⟨r', hr', hrefused⟩ := h.refuses hconfig hnot
      rw [hsome, ← hresult] at hrefused
      exact hr' (Prod.mk.inj (Option.some.inj hrefused)).1.symm
    obtain ⟨c'', hc'', hget⟩ := h.keeps _ (.label hconfig hcarried)
    rw [hsome, ← hresult] at hc''
    obtain rfl := (Prod.mk.inj (Option.some.inj hc'')).2
    exact ⟨hin, hcarried, m, hm,
      (getOptionAsString_label_iff hcks hlookup hconfig hin m).mp hget⟩
  · rintro ⟨hin, hcarried, m, hm, hkept⟩
    rw [Option.mem_def.mp hm, Option.bind_some, if_pos hin] at hset
    refine ⟨?_, ?_, by rw [hset]; rfl⟩
    · intro text htext
      cases htext with
      | number hother => exact absurd (hconfig.symm.trans hother) (by decide)
      | string hother => exact absurd (hconfig.symm.trans hother) (by decide)
      | label _ _ =>
        exact ⟨_, hset, (getOptionAsString_label_iff hcks hlookup hconfig hin m).mpr hkept⟩
    · intro _ hnot
      exact absurd hcarried hnot

/-! ### Every kind of entry -/

/-- A value is faithful exactly if the entry keeps it. -/
theorem faithful_iff (hcks : Exports l cks) (hlookup : table.lookupEntry name = some e)
    (hvalue : (0 : BitVec 8) ∉ value) :
    Faithful cks table c e name value ↔ Kept l table c e value := by
  constructor
  · intro h
    exact ⟨fun hconfig => (faithful_number_iff hcks hlookup hconfig).mp h,
      fun hconfig => (faithful_string_iff hcks hlookup hconfig hvalue).mp h,
      fun hconfig => (faithful_label_iff hcks hlookup hconfig).mp h⟩
  · intro h
    by_cases hnumber : e.config = 0x68
    · exact (faithful_number_iff hcks hlookup hnumber).mpr (h.number hnumber)
    by_cases hstring : e.config = 0x73
    · exact (faithful_string_iff hcks hlookup hstring hvalue).mpr (h.string hstring)
    by_cases hlabel : e.config = 0x65
    · exact (faithful_label_iff hcks hlookup hlabel).mpr (h.label hlabel)
    -- nothing is representable in an entry of another kind
    refine ⟨?_, fun hconfig => absurd hconfig hlabel, ?_⟩
    · intro text htext
      cases htext with
      | number hconfig => exact absurd hconfig hnumber
      | string hconfig => exact absurd hconfig hstring
      | label hconfig => exact absurd hconfig hlabel
    · simp [setOptionFromString, hlookup, hnumber, hstring, hlabel]

/-- The enum 1 has the labels `ab` and `a`, in this order. -/
def exampleEnums : List CbCmosEnums :=
  [⟨1, 0, 0x61 :: 0x62 :: List.replicate 30 0, by simp [CB_CMOS_MAX_TEXT_LENGTH]⟩,
    ⟨1, 1, 0x61 :: List.replicate 31 0, by simp [CB_CMOS_MAX_TEXT_LENGTH]⟩]

def exampleString : CbCmosEntries := ⟨⟨392, 32, 0x73, [0x73]⟩, 0⟩
def exampleLabel : CbCmosEntries := ⟨⟨388, 4, 0x65, [0x65]⟩, 1⟩
def exampleWide : CbCmosEntries := ⟨⟨480, 128, 0x68, [0x77]⟩, 0⟩
def exampleSum : CbCmosEntries := ⟨⟨448, 16, 0x68, [0x63]⟩, 0⟩

def exampleOptions : CbCmosTable where
  entries := [exampleString, exampleLabel, exampleWide, exampleSum]
  enums := exampleEnums
  behindEntries := ⟨⟨0, 0, 0, []⟩, 0⟩
  behindEnums := ⟨0, 0, List.replicate 32 0, by simp [CB_CMOS_MAX_TEXT_LENGTH]⟩

theorem faithful_iff_label :
    Faithful exampleChecksum exampleOptions (fun _ => 0) exampleLabel [0x65] [0x61, 0x62] := by
  refine (@faithful_iff exampleLayout _ _ _ _ _ _ ⟨rfl, rfl, rfl⟩ rfl (by decide)).mpr ⟨?_, ?_, ?_⟩
  · intro hconfig
    exact absurd hconfig (by decide)
  · intro hconfig
    exact absurd hconfig (by decide)
  · intro _
    exact ⟨by decide, ⟨_, List.mem_cons_self, rfl, by decide⟩, _, rfl, _, rfl, by decide, by decide⟩

/-- A string that is shorter than its entry, a label that another one starts with, a label of no enum, a
number of more than 64 bits, and the sum of the checksum. -/
theorem not_faithful :
    ¬Faithful exampleChecksum exampleOptions (fun _ => 0) exampleString [0x73] [0x61] ∧
      ¬Faithful exampleChecksum exampleOptions (fun _ => 0) exampleLabel [0x65] [0x61] ∧
      ¬Faithful exampleChecksum exampleOptions (fun _ => 0) exampleLabel [0x65] [0x63] ∧
      ¬Faithful exampleChecksum exampleOptions (fun _ => 0) exampleWide [0x77] [0x35] ∧
      ¬Faithful exampleChecksum exampleOptions (fun _ => 0) exampleSum [0x63] [0x35] := by
  have hcks : Exports exampleLayout exampleChecksum := ⟨rfl, rfl, rfl⟩
  refine ⟨?_, ?_, ?_, ?_, ?_⟩
  · rw [faithful_string_iff hcks rfl rfl (by decide)]
    exact fun h => absurd h.1 (by decide)
  · rw [faithful_label_iff hcks rfl rfl]
    rintro ⟨-, -, m, hm, m', hm', hcarries, -⟩
    obtain rfl := Option.some.inj hm
    obtain rfl := Option.some.inj hm'
    exact absurd hcarries (by decide)
  · rw [faithful_label_iff hcks rfl rfl]
    rintro ⟨-, -, m, hm, -⟩
    cases hm
  · rw [faithful_number_iff hcks rfl rfl]
    exact fun h => absurd h.1 (by decide)
  · rw [faithful_number_iff hcks rfl rfl]
    intro h
    have hretains := h.2 5 (by decide) (by decide)
    rw [Retains, if_neg (by decide)] at hretains
    exact absurd (hretains.2 0 (by decide) 0 (by decide)) (by decide)

end ApuBios.Options
