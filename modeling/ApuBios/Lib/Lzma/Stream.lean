import ApuBios.Lib.Lzma.Table

/-!
# The stream

The range decoder of LZMA is a range coder (`rcAnswer_eq`): with the probabilities that can occur
both parts of a range are large enough for one byte. Its reader gives the bytes of the stream, reads
nothing else, and stops when three bytes or less of the input are left (`Reader.At.next`).
-/

namespace ApuBios.Lzma

open DecisionTree RangeCoder

/-! ### The range decoder -/

/-- The probability that is learned from a bit. -/
def learned (prob : ℕ) (b : Bool) : ℕ :=
  if b then prob - prob >>> kNumMoveBits else prob + (kBitModelTotal - prob) >>> kNumMoveBits

def bound (probs : List ℕ) (range : ℕ) : Question → ℕ
  | .prob p => range >>> kNumBitModelTotalBits * probs.getD p 0
  | .direct => range >>> 1

def coder : Coder (List ℕ) Question where
  width := kNumTopBits
  no probs q range := bound probs range q
  yes probs q range :=
    match q with
    | .prob _ => range - bound probs range q
    | .direct => range >>> 1
  learn probs q b :=
    match q with
    | .prob p => probs.set p (learned (probs.getD p 0) b)
    | .direct => probs

/-- The table while it is used. -/
structure Model (numProbs : ℕ) (probs : List ℕ) : Prop where
  length : probs.length = numProbs
  range : ∀ p ∈ probs, 31 ≤ p ∧ p ≤ kBitModelTotal - 31

variable {numProbs : ℕ} {input : Input}

lemma model_init (numProbs : ℕ) : Model numProbs (List.replicate numProbs (kBitModelTotal >>> 1)) := by
  refine ⟨List.length_replicate, fun p hp => ?_⟩
  obtain rfl := List.eq_of_mem_replicate hp
  decide

lemma Model.get {probs : List ℕ} (h : Model numProbs probs) {p : ℕ} (hp : p < numProbs) :
    31 ≤ probs.getD p 0 ∧ probs.getD p 0 ≤ 2017 := by
  have hlen : p < probs.length := by rwa [h.length]
  rw [List.getD_eq_getElem _ _ hlen]
  exact h.range _ (List.getElem_mem hlen)

lemma learned_range {prob : ℕ} (b : Bool) (h : 31 ≤ prob ∧ prob ≤ 2017) :
    31 ≤ learned prob b ∧ learned prob b ≤ 2017 := by
  simp only [learned, kNumMoveBits, kBitModelTotal, kNumBitModelTotalBits, Nat.shiftRight_eq_div_pow,
    Nat.shiftLeft_eq]
  split_ifs <;> omega

/-- A part of the range for a probability is a 66th of it at least. -/
lemma bound_bounds (range : ℕ) {prob : ℕ} (h : 31 ≤ prob ∧ prob ≤ 2017) :
    range / 2 ^ 11 * 31 ≤ range / 2 ^ 11 * prob ∧
      range / 2 ^ 11 * prob + range / 2 ^ 11 * 31 ≤ range := by
  constructor
  · exact Nat.mul_le_mul_left _ h.1
  · calc range / 2 ^ 11 * prob + range / 2 ^ 11 * 31 = range / 2 ^ 11 * (prob + 31) := by ring
      _ ≤ range / 2 ^ 11 * 2 ^ 11 := Nat.mul_le_mul_left _ (by omega)
      _ ≤ range := Nat.div_mul_le_self _ _

lemma splits (numProbs : ℕ) : Splits coder (Model numProbs) (InTable numProbs) where
  width_le := by decide
  le_part := by
    intro probs q range b hmodel hq hle hlt
    change 2 ^ 24 ≤ range at hle
    change 2 ^ 16 ≤ coder.part probs q range b
    have hdiv : 2 ^ 13 ≤ range / 2 ^ 11 := (Nat.le_div_iff_mul_le (by decide)).2 hle
    cases q with
    | prob p =>
      obtain ⟨hlow, hhigh⟩ := bound_bounds range (hmodel.get hq)
      have hbound : bound probs range (.prob p) = range / 2 ^ 11 * probs.getD p 0 := by
        rw [bound, Nat.shiftRight_eq_div_pow, kNumBitModelTotalBits]
      cases b with
      | false =>
        change 2 ^ 16 ≤ bound probs range (.prob p)
        omega
      | true =>
        change 2 ^ 16 ≤ range - bound probs range (.prob p)
        omega
    | direct =>
      have hhalf : coder.part probs .direct range b = range / 2 := by
        cases b <;> exact Nat.shiftRight_eq_div_pow range 1
      omega
  parts_le := by
    intro probs q range hmodel hq hle hlt
    cases q with
    | prob p =>
      obtain ⟨hlow, hhigh⟩ := bound_bounds range (hmodel.get hq)
      have hbound : bound probs range (.prob p) = range / 2 ^ 11 * probs.getD p 0 := by
        rw [bound, Nat.shiftRight_eq_div_pow, kNumBitModelTotalBits]
      change bound probs range (.prob p) + (range - bound probs range (.prob p)) ≤ range
      omega
    | direct =>
      change range >>> 1 + range >>> 1 ≤ range
      rw [Nat.shiftRight_eq_div_pow]
      omega
  learn := by
    intro probs q b hmodel hq
    cases q with
    | prob p =>
      refine ⟨by rw [← hmodel.length]; exact List.length_set, fun x hx => ?_⟩
      rcases List.mem_or_eq_of_mem_set hx with hx | rfl
      · exact hmodel.range x hx
      · exact learned_range b (hmodel.get hq)
    | direct => exact hmodel

lemma shiftCode_eq (code : ℕ) (b : UInt8) : shiftCode code b = (2 ^ 8 * code + b.toNat) % 2 ^ 32 := by
  have hb : b.toNat < 2 ^ 8 := b.toNat_lt
  have hmod : code <<< 8 % 2 ^ 32 = 2 ^ 8 * (code % 2 ^ 24) := by
    rw [Nat.shiftLeft_eq]
    omega
  rw [shiftCode, hmod, ← Nat.two_pow_add_eq_or_of_lt hb]
  omega

lemma rcNormalize_eq (d : RangeDecoder) :
    rcNormalize input d = RangeCoder.normalize coder (rcNextByte input) d := by
  rw [rcNormalize, RangeCoder.normalize]
  change (if d.range < 2 ^ 24 then _ else _) = if d.range < 2 ^ 24 then _ else _
  split_ifs with hsmall
  · have hrange : d.range <<< 8 % 2 ^ 32 = 2 ^ 8 * d.range := by
      rw [Nat.shiftLeft_eq, Nat.mod_eq_of_lt (by omega), Nat.mul_comm]
    simp only [hrange, shiftCode_eq]
    rfl
  · rfl

/-- The macros for a bit are those of a range coder as long as they are used within the table. -/
lemma rcAnswer_eq {d : RangeDecoder} {q : Question} (hd : Fits (Model numProbs) coder d)
    (hq : InTable numProbs q) :
    rcAnswer input d q = answer coder (rcNextByte input) d q := by
  cases q with
  | prob p =>
    have hlen : p < d.model.length := by
      rw [hd.model.length]
      exact hq
    rw [rcAnswer, rcGetBit, List.getElem?_eq_getElem hlen, answer, rcNormalize_eq]
    cases hnormalize : RangeCoder.normalize coder (rcNextByte input) d with
    | error e => rfl
    | ok d' =>
      obtain ⟨hmodel, hle, hlt⟩ := hd.scaled (splits numProbs) hnormalize
      have hsame := (range_of_normalize hnormalize).1
      have hprob : d'.model.getD p 0 = d.model[p] := by
        rw [hsame, List.getD_eq_getElem _ _ hlen]
      have hfits : (d'.range >>> kNumBitModelTotalBits * d.model[p]) % 2 ^ 32 =
          bound d'.model d'.range (.prob p) := by
        have hbounds := (bound_bounds d'.range (hmodel.get hq)).2
        change d'.range < 2 ^ 32 at hlt
        rw [bound, hprob, kNumBitModelTotalBits, Nat.shiftRight_eq_div_pow]
        rw [hprob] at hbounds
        exact Nat.mod_eq_of_lt (by omega)
      change (if d'.code < _ then _ else _) = Except.ok (split coder d' (.prob p))
      rw [hfits, split]
      change _ = Except.ok (if d'.code < bound d'.model d'.range (.prob p) then _ else _)
      split_ifs with hcode
      · change _ = Except.ok (false, _)
        rw [← hprob]
        rfl
      · rw [← hprob]
        rfl
  | direct =>
    rw [rcAnswer, rcDirectBit, answer, rcNormalize_eq]
    cases hnormalize : RangeCoder.normalize coder (rcNextByte input) d with
    | error e => rfl
    | ok d' =>
      change (if d'.range >>> 1 ≤ d'.code then _ else _) =
          Except.ok (if d'.code < d'.range >>> 1 then _ else _)
      by_cases hcode : d'.range >>> 1 ≤ d'.code
      · rw [if_pos hcode, if_neg (not_lt.2 hcode)]
        rfl
      · rw [if_neg hcode, if_pos (not_le.1 hcode)]
        rfl

/-! ### The reader -/

/-- The input may be read. -/
def Readable (input : Input) (inStream inSize : ℕ) : Prop :=
  inSize < 2 ^ 32 ∧ ∀ k < inSize, (input ((inStream + k) % 2 ^ 32)).isSome

/-- The byte at a position of the stream. -/
def byteAt (input : Input) (inStream k : ℕ) : UInt8 := (input ((inStream + k) % 2 ^ 32)).getD 0

/-- `n` bytes have been given. Those that have been looked at ahead are in `raw`. -/
structure Reader.At (input : Input) (inStream inSize n : ℕ) (r : Reader) : Prop where
  buffer : r.buffer = (inStream + (n + (4 - r.lookAheadPtr))) % 2 ^ 32
  bufferLim : r.bufferLim = (inStream + inSize) % 2 ^ 32
  fetched : n + (4 - r.lookAheadPtr) ≤ inSize
  ptr : 1 ≤ r.lookAheadPtr ∧ r.lookAheadPtr ≤ 4
  raw : ∀ i, r.lookAheadPtr ≤ i → i < 4 → r.raw i = byteAt input inStream (n + (i - r.lookAheadPtr))

section Reader

variable {inStream inSize n : ℕ} {r : Reader}

lemma fetch_eq (h : Readable input inStream inSize) {k : ℕ} (hk : k < inSize) :
    fetch input ((inStream + k) % 2 ^ 32) = .ok (byteAt input inStream k) := by
  rw [fetch, byteAt]
  obtain ⟨b, hb⟩ := Option.isSome_iff_exists.1 (h.2 k hk)
  rw [hb]
  rfl

/-- The four bytes of an aligned address do not wrap. -/
lemma fetchDword_eq (h : Readable input inStream inSize) {k : ℕ} (hk : k + 4 ≤ inSize)
    (halign : (inStream + k) % 2 ^ 32 % 4 = 0) :
    ∃ raw, fetchDword input ((inStream + k) % 2 ^ 32) = .ok raw ∧
      ∀ i < 4, raw i = byteAt input inStream (k + i) := by
  have haddr : ∀ i < 4, (inStream + k) % 2 ^ 32 + i = (inStream + (k + i)) % 2 ^ 32 := fun i hi => by
    omega
  refine ⟨fun i => (input ((inStream + k) % 2 ^ 32 + i)).getD 0, ?_, fun i hi => ?_⟩
  · rw [fetchDword, if_pos]
    intro i hi
    rw [haddr i hi]
    exact h.2 (k + i) (by omega)
  · change (input ((inStream + k) % 2 ^ 32 + i)).getD 0 = _
    rw [haddr i hi, byteAt]

lemma Reader.At.left (h : Readable input inStream inSize) (hr : r.At input inStream inSize n) :
    Word.sub 32 r.bufferLim r.buffer = inSize - (n + (4 - r.lookAheadPtr)) := by
  have hfetched := hr.fetched
  have hsize := h.1
  rw [hr.buffer, hr.bufferLim, Word.sub]
  omega

/-- `RC_READ_BYTE` where input is left. -/
lemma Reader.At.read (h : Readable input inStream inSize) (hr : r.At input inStream inSize n)
    (hleft : n + (4 - r.lookAheadPtr) < inSize) :
    ∃ r', rcReadByte input r = .ok (byteAt input inStream n, r') ∧ r'.At input inStream inSize (n + 1) := by
  have hptr := hr.ptr
  rw [rcReadByte, hr.left h]
  by_cases hlook : r.lookAheadPtr < 4
  · rw [if_pos hlook, hr.raw _ le_rfl hlook, Nat.sub_self]
    refine ⟨_, rfl, ⟨?_, hr.bufferLim, ?_, ⟨Nat.le_add_left 1 _, hlook⟩, fun i hle hlt => ?_⟩⟩
    · rw [hr.buffer, show n + 1 + (4 - (r.lookAheadPtr + 1)) = n + (4 - r.lookAheadPtr) by omega]
    · change n + 1 + (4 - (r.lookAheadPtr + 1)) ≤ inSize
      omega
    · change r.lookAheadPtr + 1 ≤ i at hle
      change r.raw i = byteAt input inStream (n + 1 + (i - (r.lookAheadPtr + 1)))
      rw [hr.raw i (by omega) hlt]
      congr 1
      omega
  · have hnone : r.lookAheadPtr = 4 := by omega
    have hfetched : n + (4 - r.lookAheadPtr) = n := by rw [hnone, Nat.sub_self, Nat.add_zero]
    have hbuffer : r.buffer = (inStream + n) % 2 ^ 32 := by rw [hr.buffer, hfetched]
    rw [hfetched] at hleft
    rw [if_neg hlook, hfetched, hbuffer]
    by_cases hsingle : (inStream + n) % 2 ^ 32 % 4 ≠ 0 ∨ inSize - n < 4
    · rw [if_pos hsingle, fetch_eq h hleft]
      refine ⟨_, rfl, ⟨?_, hr.bufferLim, ?_, hr.ptr, fun i hle hlt => ?_⟩⟩
      · change Word.add 32 ((inStream + n) % 2 ^ 32) 1 =
          (inStream + (n + 1 + (4 - r.lookAheadPtr))) % 2 ^ 32
        rw [hnone, Word.add]
        omega
      · change n + 1 + (4 - r.lookAheadPtr) ≤ inSize
        omega
      · exact absurd (hle.trans_lt hlt) hlook
    · rw [not_or, not_not, not_lt] at hsingle
      obtain ⟨raw, hdword, hraw⟩ := fetchDword_eq h (k := n) (by omega) hsingle.1
      rw [if_neg (by omega), hdword]
      refine ⟨{ r with raw := raw, buffer := Word.add 32 ((inStream + n) % 2 ^ 32) 4, lookAheadPtr := 1 },
        ?_, ⟨?_, hr.bufferLim, ?_, ⟨le_rfl, Nat.le_add_left 1 3⟩, fun i hle hlt => ?_⟩⟩
      · change Except.ok (raw 0, _) = _
        rw [hraw 0 (by decide)]
        rfl
      · change Word.add 32 ((inStream + n) % 2 ^ 32) 4 = (inStream + (n + 1 + (4 - 1))) % 2 ^ 32
        rw [Word.add]
        omega
      · change n + 1 + (4 - 1) ≤ inSize
        omega
      · change raw i = byteAt input inStream (n + 1 + (i - 1))
        change 1 ≤ i at hle
        rw [hraw i hlt]
        congr 1
        omega

/-- The next byte is given, unless all of the input has been fetched, which is so only near its
end. -/
lemma Reader.At.next (h : Readable input inStream inSize) (hr : r.At input inStream inSize n) :
    (n < inSize ∧ ∃ r', rcNextByte input r = .ok (byteAt input inStream n, r') ∧
      r'.At input inStream inSize (n + 1)) ∨
    inSize < n + 4 ∧ rcNextByte input r = .error .dataError := by
  have hfetched := hr.fetched
  have hptr := hr.ptr
  have hsize := h.1
  rw [rcNextByte, hr.buffer, hr.bufferLim]
  by_cases hall : n + (4 - r.lookAheadPtr) = inSize
  · rw [hall, if_pos rfl]
    exact .inr ⟨by omega, rfl⟩
  · rw [if_neg (by omega)]
    exact .inl ⟨by omega, hr.read h (by omega)⟩

end Reader

end ApuBios.Lzma
