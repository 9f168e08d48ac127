import ApuBios.Lib.Lzma.Tokens

/-!
# The bits that the decoder asks for

Whatever the bits are compressed to, the decoder asks for the code of a token in every round, and
changes its variables as the token says (`ends_decodeRound`).
-/

namespace ApuBios.Lzma

open DecisionTree

variable {props : CLzmaProperties} {outSize : ℕ} {bs : List Bool}

/-! ### Numbers -/

section

variable {probs n v : ℕ}

lemma ends_getBit {α : Type} {p : ℕ} {f : Bool → Program α} {a : α} :
    Ends (getBit p >>= f) bs (.ok a) ↔ ∃ b cs, bs = b :: cs ∧ Ends (f b) cs (.ok a) := ends_ask

lemma ends_directBit {α : Type} {f : Bool → Program α} {a : α} :
    Ends (directBit >>= f) bs (.ok a) ↔ ∃ b cs, bs = b :: cs ∧ Ends (f b) cs (.ok a) := ends_ask

/-- The first bit and the others. -/
lemma eq_testBit_add {x : ℕ} (hx : x < 2 ^ (n + 1)) :
    x = (x.testBit n).toNat * 2 ^ n + x % 2 ^ n := by
  have hdiv : x / 2 ^ n < 2 := (Nat.div_lt_iff_lt_mul (by positivity)).2 (by rwa [← pow_succ'])
  rw [Nat.toNat_testBit, Nat.mod_eq_of_lt hdiv, Nat.mul_comm]
  exact (Nat.div_add_mod x (2 ^ n)).symm

/-- A number begins with `head`, and its last `n` bits are asked for. -/
def Tail (n head : ℕ) (bs : List Bool) (v : ℕ) : Prop :=
  ∃ x < 2 ^ n, bs = bitsMsb n x ∧ v = head * 2 ^ n + x

lemma tail_zero {head : ℕ} : Tail 0 head bs v ↔ bs = [] ∧ head = v := by
  constructor
  · rintro ⟨x, hx, rfl, rfl⟩
    exact ⟨rfl, by omega⟩
  · rintro ⟨rfl, rfl⟩
    exact ⟨0, Nat.one_pos, rfl, by ring⟩

/-- The next bit is taken to the head. -/
lemma tail_succ {head : ℕ} :
    Tail (n + 1) head bs v ↔ ∃ b cs, bs = b :: cs ∧ Tail n (2 * head + b.toNat) cs v := by
  constructor
  · rintro ⟨x, hx, rfl, rfl⟩
    refine ⟨x.testBit n, bitsMsb n x, rfl, x % 2 ^ n, Nat.mod_lt _ (by positivity), ?_, ?_⟩
    · exact bitsMsb_congr (Nat.mod_mod x _).symm
    · calc head * 2 ^ (n + 1) + x
          = head * 2 ^ (n + 1) + ((x.testBit n).toNat * 2 ^ n + x % 2 ^ n) := by
            rw [← eq_testBit_add hx]
        _ = (2 * head + (x.testBit n).toNat) * 2 ^ n + x % 2 ^ n := by ring
  · rintro ⟨b, cs, rfl, x, hx, rfl, rfl⟩
    have hb : b.toNat * 2 ^ n ≤ 1 * 2 ^ n := Nat.mul_le_mul_right _ (Bool.toNat_le b)
    refine ⟨b.toNat * 2 ^ n + x, ?_, (bitsMsb_succ b hx).symm, by ring⟩
    rw [pow_succ']
    omega

lemma ends_bitTreeLoop {res : ℕ} :
    Ends (bitTreeLoop probs n res) bs (.ok v) ↔ Tail n res bs v := by
  induction n generalizing res bs with
  | zero => rw [bitTreeLoop, pure_eq, ends_done, tail_zero]
  | succ n ih =>
    rw [bitTreeLoop, ends_getBit, tail_succ]
    simp only [ih]

lemma ends_bitTree :
    Ends (rangeDecoderBitTreeDecode probs n) bs (.ok v) ↔ v < 2 ^ n ∧ bs = bitsMsb n v := by
  rw [rangeDecoderBitTreeDecode, ends_bind]
  simp only [ends_bitTreeLoop, Tail, pure_eq, ends_done, Nat.shiftLeft_eq, Nat.one_mul]
  constructor
  · rintro ⟨a, cs, ds, rfl, ⟨x, hx, rfl, rfl⟩, rfl, rfl⟩
    rw [Nat.add_sub_cancel_left, List.append_nil]
    exact ⟨hx, rfl⟩
  · rintro ⟨hv, rfl⟩
    exact ⟨2 ^ n + v, bitsMsb n v, [], (List.append_nil _).symm, ⟨v, hv, rfl, rfl⟩, rfl, by omega⟩

lemma ends_directLoop {rep0 : ℕ} (h : (rep0 + 1) * 2 ^ n ≤ 2 ^ 32) :
    Ends (directLoop n rep0) bs (.ok v) ↔ Tail n rep0 bs v := by
  induction n generalizing rep0 bs with
  | zero => rw [directLoop, pure_eq, ends_done, tail_zero]
  | succ n ih =>
    have hfits : ∀ b : Bool, (2 * rep0 + b.toNat + 1) * 2 ^ n ≤ 2 ^ 32 := fun b => by
      calc (2 * rep0 + b.toNat + 1) * 2 ^ n ≤ (2 * (rep0 + 1)) * 2 ^ n :=
            Nat.mul_le_mul_right _ (by have := Bool.toNat_le b; omega)
        _ = (rep0 + 1) * 2 ^ (n + 1) := by ring
        _ ≤ 2 ^ 32 := h
    have hnext : ∀ b : Bool, rep0 <<< 1 % 2 ^ 32 ||| b.toNat = 2 * rep0 + b.toNat := fun b => by
      have hle := Nat.le_mul_of_pos_right (2 * rep0 + b.toNat + 1) (Nat.two_pow_pos n)
      have hlt : rep0 <<< 1 < 2 ^ 32 := by
        rw [Nat.shiftLeft_eq]
        have := hfits b
        omega
      rw [Nat.mod_eq_of_lt hlt, ← Nat.shiftLeft_add_eq_or_of_lt (Bool.toNat_lt b), Nat.shiftLeft_eq,
        pow_one, Nat.mul_comm]
    rw [directLoop, ends_directBit, tail_succ]
    simp only [hnext, ih (hfits _)]

/-- A bit is set that has not been set. -/
lemma or_two_pow {x j : ℕ} (h : x / 2 ^ j % 2 = 0) : x ||| 2 ^ j = x + 2 ^ j := by
  have hlow : x % 2 ^ j < 2 ^ j := Nat.mod_lt _ (by positivity)
  have hboth : 2 ^ j * 1 + x % 2 ^ j < 2 ^ (j + 1) := by
    rw [pow_succ]
    omega
  have hx : x = 2 ^ (j + 1) * (x / 2 ^ j / 2) + x % 2 ^ j := by
    have hdiv := Nat.div_add_mod x (2 ^ j)
    have hhalf : x / 2 ^ j = 2 * (x / 2 ^ j / 2) := by omega
    rw [pow_succ, Nat.mul_assoc, ← hhalf]
    exact hdiv.symm
  calc x ||| 2 ^ j = (2 ^ (j + 1) * (x / 2 ^ j / 2) ||| x % 2 ^ j) ||| 2 ^ j * 1 := by
        rw [← Nat.two_pow_add_eq_or_of_lt (by rw [pow_succ]; omega), ← hx, Nat.mul_one]
    _ = 2 ^ (j + 1) * (x / 2 ^ j / 2) ||| (2 ^ j * 1 ||| x % 2 ^ j) := by
        rw [Nat.or_assoc, Nat.or_comm (x % 2 ^ j)]
    _ = 2 ^ (j + 1) * (x / 2 ^ j / 2) + (2 ^ j * 1 + x % 2 ^ j) := by
        rw [← Nat.two_pow_add_eq_or_of_lt hlow, ← Nat.two_pow_add_eq_or_of_lt hboth]
    _ = x + 2 ^ j := by omega

lemma ends_reverseLoop {mi j rep0 : ℕ} (h : rep0 / 2 ^ j % 2 ^ n = 0) :
    Ends (reverseLoop probs n mi (2 ^ j) rep0) bs (.ok v) ↔
      ∃ x < 2 ^ n, bs = bitsLsb n x ∧ v = rep0 + 2 ^ j * x := by
  induction n generalizing mi j rep0 bs with
  | zero =>
    rw [reverseLoop, pure_eq, ends_done]
    constructor
    · rintro ⟨rfl, rfl⟩
      exact ⟨0, Nat.one_pos, rfl, by ring⟩
    · rintro ⟨x, hx, rfl, rfl⟩
      obtain rfl : x = 0 := by omega
      exact ⟨rfl, by ring⟩
  | succ n ih =>
    rw [pow_succ', Nat.mod_mul] at h
    have hlow : rep0 / 2 ^ j % 2 = 0 := by omega
    have hhigh : rep0 / 2 ^ j / 2 % 2 ^ n = 0 := by omega
    rw [Nat.div_div_eq_div_mul, ← pow_succ] at hhigh
    have hnext : ∀ b : Bool, (if b then rep0 ||| 2 ^ j else rep0) = rep0 + 2 ^ j * b.toNat := fun b => by
      cases b
      · rfl
      · exact (or_two_pow hlow).trans (by rw [Bool.toNat_true, Nat.mul_one])
    have hclear : ∀ b : Bool, (rep0 + 2 ^ j * b.toNat) / 2 ^ (j + 1) % 2 ^ n = 0 := fun b => by
      rw [pow_succ, ← Nat.div_div_eq_div_mul, Nat.add_mul_div_left _ _ (by positivity)]
      rw [pow_succ, ← Nat.div_div_eq_div_mul] at hhigh
      have hb := Bool.toNat_le b
      rwa [show (rep0 / 2 ^ j + b.toNat) / 2 = rep0 / 2 ^ j / 2 by omega]
    have hshift : (2 ^ j) <<< 1 = 2 ^ (j + 1) := by rw [Nat.shiftLeft_eq, pow_one, pow_succ]
    rw [reverseLoop, ends_getBit]
    simp only [hshift, hnext]
    constructor
    · rintro ⟨b, cs, rfl, h'⟩
      obtain ⟨x, hx, rfl, rfl⟩ := (ih (hclear b)).1 h'
      have hb := Bool.toNat_le b
      refine ⟨2 * x + b.toNat, ?_, (bitsLsb_succ b).symm, by ring⟩
      rw [pow_succ']
      omega
    · rintro ⟨x, hx, rfl, rfl⟩
      have hbit : (x.testBit 0).toNat = x % 2 := by rw [Nat.toNat_testBit, pow_zero, Nat.div_one]
      refine ⟨x.testBit 0, bitsLsb n (x / 2), rfl, (ih (hclear _)).2 ⟨x / 2, ?_, rfl, ?_⟩⟩
      · rw [pow_succ'] at hx
        omega
      · rw [hbit]
        calc rep0 + 2 ^ j * x = rep0 + 2 ^ j * (x % 2 + 2 * (x / 2)) := by rw [Nat.mod_add_div]
          _ = rep0 + 2 ^ j * (x % 2) + 2 ^ (j + 1) * (x / 2) := by ring

end

/-! ### Lengths and distances -/

/-- A number that is counted from `k`. -/
lemma ends_bitTree_add {probs n k v : ℕ} :
    Ends (rangeDecoderBitTreeDecode probs n >>= fun len => pure (len + k)) bs (.ok v) ↔
      k ≤ v ∧ v - k < 2 ^ n ∧ bs = bitsMsb n (v - k) := by
  rw [ends_bind]
  constructor
  · rintro ⟨a, cs, ds, rfl, h, hdone⟩
    obtain ⟨ha, rfl⟩ := ends_bitTree.1 h
    obtain ⟨rfl, rfl⟩ := ends_done.1 hdone
    rw [Nat.add_sub_cancel, List.append_nil]
    exact ⟨Nat.le_add_left k a, ha, rfl⟩
  · rintro ⟨hk, hv, rfl⟩
    exact ⟨v - k, _, [], (List.append_nil _).symm, ends_bitTree.2 ⟨hv, rfl⟩,
      ends_done.2 ⟨rfl, Nat.sub_add_cancel hk⟩⟩

lemma ends_decodeLen {prob posState v : ℕ} :
    Ends (decodeLen prob posState) bs (.ok v) ↔
      v + kMatchMinLen ≤ kMatchMaxLen ∧ bs = lenCode (v + kMatchMinLen) := by
  rw [decodeLen, lenCode, Nat.add_sub_cancel, ends_getBit]
  have hlow : kLenNumLowSymbols = 2 ^ kLenNumLowBits := rfl
  have hmid : kLenNumMidSymbols = 2 ^ kLenNumMidBits := rfl
  have hhigh : kLenNumHighSymbols = 2 ^ kLenNumHighBits := rfl
  simp only [kMatchMaxLen, kMatchMinLen, hlow, hmid, hhigh]
  constructor
  · rintro ⟨b, cs, rfl, h⟩
    cases b with
    | false =>
      obtain ⟨hv, rfl⟩ := ends_bitTree.1 h
      rw [if_pos hv]
      exact ⟨by omega, rfl⟩
    | true =>
      obtain ⟨c, ds, rfl, h'⟩ := ends_getBit.1 h
      cases c with
      | false =>
        obtain ⟨hk, hv, rfl⟩ := ends_bitTree_add.1 h'
        rw [if_neg (by omega), if_pos (by omega)]
        exact ⟨by omega, rfl⟩
      | true =>
        obtain ⟨hk, hv, rfl⟩ := ends_bitTree_add.1 h'
        rw [if_neg (by omega), if_neg (by omega)]
        exact ⟨by omega, rfl⟩
  · rintro ⟨hv, rfl⟩
    split_ifs with hlt hlt'
    · exact ⟨false, _, rfl, ends_bitTree.2 ⟨hlt, rfl⟩⟩
    · refine ⟨true, _, rfl, ends_getBit.2 ⟨false, _, rfl, ?_⟩⟩
      exact ends_bitTree_add.2 ⟨by omega, by omega, rfl⟩
    · refine ⟨true, _, rfl, ends_getBit.2 ⟨true, _, rfl, ?_⟩⟩
      exact ends_bitTree_add.2 ⟨by omega, by omega, rfl⟩

/-- The bits of a distance after its slot. -/
lemma ends_lowBits {probs n base v : ℕ} (h : base % 2 ^ n = 0) :
    Ends (reverseLoop probs n 1 1 base) bs (.ok v) ↔
      v / 2 ^ n * 2 ^ n = base ∧ bs = bitsLsb n v := by
  have hreverse : Ends (reverseLoop probs n 1 (2 ^ 0) base) bs (.ok v) ↔ _ :=
    ends_reverseLoop (by rwa [pow_zero, Nat.div_one])
  rw [pow_zero] at hreverse
  rw [hreverse]
  have hbase := Nat.div_add_mod base (2 ^ n)
  rw [h, Nat.add_zero] at hbase
  constructor
  · rintro ⟨x, hx, rfl, rfl⟩
    rw [Nat.one_mul, ← hbase]
    constructor
    · rw [Nat.mul_add_div (by positivity), Nat.div_eq_of_lt hx, Nat.add_zero, Nat.mul_comm]
    · exact bitsLsb_congr (by rw [Nat.mul_add_mod_self_left])
  · rintro ⟨rfl, rfl⟩
    refine ⟨v % 2 ^ n, Nat.mod_lt _ (by positivity), bitsLsb_congr (Nat.mod_mod v _).symm, ?_⟩
    rw [Nat.one_mul, Nat.div_add_mod']

/-- The first two bits of a distance. -/
lemma leading_bits (slot : ℕ) : 2 ||| slot &&& 1 = 2 + slot % 2 := by
  have hlt : slot % 2 < 2 ^ 1 := Nat.mod_lt _ (by decide)
  rw [Nat.and_one_is_mod]
  exact (Nat.two_pow_add_eq_or_of_lt hlt 1).symm

/-- The distances of a slot have the same leading bits. -/
lemma slotOf_iff {slot v : ℕ} (hge : kStartPosModelIndex ≤ slot) (hlt : slot < 64) :
    v < 2 ^ 32 ∧ slotOf v = slot ↔ v / 2 ^ (slot / 2 - 1) = 2 + slot % 2 := by
  constructor
  · rintro ⟨hv, rfl⟩
    have hv4 : kStartPosModelIndex ≤ v := by
      by_contra hsmall
      rw [slotOf, if_pos (by omega)] at hge
      exact hsmall hge
    have heq := eq_of_slotOf hv4
    set n := slotOf v / 2 - 1
    calc v / 2 ^ n = ((2 + slotOf v % 2) * 2 ^ n + v % 2 ^ n) / 2 ^ n := by rw [← heq]
      _ = 2 + slotOf v % 2 := by
        rw [Nat.mul_comm, Nat.mul_add_div (by positivity),
          Nat.div_eq_of_lt (Nat.mod_lt _ (by positivity)), Nat.add_zero]
  · intro h
    have heq := Nat.div_add_mod v (2 ^ (slot / 2 - 1))
    have hlow := Nat.mod_lt v (Nat.two_pow_pos (slot / 2 - 1))
    rw [h, Nat.mul_comm] at heq
    constructor
    · calc v = (2 + slot % 2) * 2 ^ (slot / 2 - 1) + v % 2 ^ (slot / 2 - 1) := heq.symm
        _ < (2 + slot % 2) * 2 ^ (slot / 2 - 1) + 2 ^ (slot / 2 - 1) := by omega
        _ = (3 + slot % 2) * 2 ^ (slot / 2 - 1) := by ring
        _ ≤ 4 * 2 ^ 30 := Nat.mul_le_mul (by omega) (Nat.pow_le_pow_right (by decide) (by omega))
        _ = 2 ^ 32 := by norm_num
    · rw [← heq]
      exact slotOf_eq hge hlow

lemma ends_decodeDistanceBits {slot v : ℕ} (hslot : slot < 2 ^ kNumPosSlotBits) :
    Ends (decodeDistanceBits slot) bs (.ok v) ↔
      (v < 2 ^ 32 ∧ slotOf v = slot) ∧ bs = lowCode v := by
  have hlt : slot < 64 := hslot
  rw [decodeDistanceBits]
  simp only [leading_bits, Nat.shiftRight_succ, Nat.shiftRight_zero, Nat.shiftLeft_eq]
  by_cases hsmall : slot < kStartPosModelIndex
  · rw [if_neg (by omega), pure_eq, ends_done]
    have hself : slotOf slot = slot := if_pos hsmall
    constructor
    · rintro ⟨rfl, rfl⟩
      rw [lowCode, hself]
      exact ⟨⟨by omega, rfl⟩, (if_pos hsmall).symm⟩
    · rintro ⟨⟨-, hv⟩, rfl⟩
      have hv4 : v < kStartPosModelIndex := by
        by_contra hge
        have := slotOf_ge (not_lt.1 hge)
        omega
      rw [lowCode, hv]
      exact ⟨if_pos hsmall, hv.symm.trans (if_pos hv4)⟩
  · rw [not_lt] at hsmall
    set n := slot / 2 - 1 with hn
    have hn30 : n ≤ 30 := by omega
    rw [if_pos hsmall, slotOf_iff hsmall hlt, lowCode]
    by_cases hmid : slot < kEndPosModelIndex
    · have hbase : (2 + slot % 2) * 2 ^ n < 2 ^ 32 := by
        simp only [kEndPosModelIndex] at hmid
        calc (2 + slot % 2) * 2 ^ n ≤ 3 * 2 ^ 30 :=
              Nat.mul_le_mul (by omega) (Nat.pow_le_pow_right (by decide) hn30)
          _ < 2 ^ 32 := by norm_num
      rw [if_pos hmid, Nat.mod_eq_of_lt hbase, ends_lowBits (Nat.mul_mod_left _ _),
        Nat.mul_left_inj (by positivity)]
      refine and_congr_right fun hv => ?_
      rw [((slotOf_iff hsmall hlt).2 hv).2, if_neg (by omega), if_pos hmid]
    · rw [not_lt] at hmid
      have hn4 : n = kNumAlignBits + (n - kNumAlignBits) := by
        simp only [kEndPosModelIndex] at hmid
        simp only [kNumAlignBits]
        omega
      have hexp : 2 ^ n = 2 ^ kNumAlignBits * 2 ^ (n - kNumAlignBits) := by rw [← pow_add, ← hn4]
      have htop : (2 + slot % 2 + 1) * 2 ^ (n - kNumAlignBits) ≤ 2 ^ 28 := by
        simp only [kNumAlignBits]
        calc (2 + slot % 2 + 1) * 2 ^ (n - 4) ≤ 4 * 2 ^ 26 :=
              Nat.mul_le_mul (by omega) (Nat.pow_le_pow_right (by decide) (by omega))
          _ = 2 ^ 28 := by norm_num
      rw [if_neg (by omega), ends_bind]
      constructor
      · rintro ⟨a, cs, ds, rfl, hdirect, hreverse⟩
        obtain ⟨x, hx, rfl, rfl⟩ := (ends_directLoop (htop.trans (by norm_num))).1 hdirect
        have hlt28 : (2 + slot % 2) * 2 ^ (n - kNumAlignBits) + x < 2 ^ 28 := by
          rw [Nat.succ_mul] at htop
          omega
        rw [Nat.mod_eq_of_lt (by simp only [kNumAlignBits] at hlt28 ⊢; omega),
          ends_lowBits (Nat.mul_mod_left _ _), Nat.mul_left_inj (by positivity)] at hreverse
        obtain ⟨hv, rfl⟩ := hreverse
        have hdiv : v / 2 ^ n = 2 + slot % 2 := by
          rw [hexp, ← Nat.div_div_eq_div_mul, hv, Nat.mul_comm, Nat.mul_add_div (by positivity),
            Nat.div_eq_of_lt hx, Nat.add_zero]
        refine ⟨hdiv, ?_⟩
        rw [((slotOf_iff hsmall hlt).2 hdiv).2, if_neg (by omega), if_neg (by omega), hv]
        congr 1
        exact bitsMsb_congr (by rw [Nat.mul_add_mod_self_right])
      · rintro ⟨hdiv, rfl⟩
        rw [((slotOf_iff hsmall hlt).2 hdiv).2, if_neg (by omega), if_neg (by omega)]
        have hv : v / 2 ^ kNumAlignBits =
            (2 + slot % 2) * 2 ^ (n - kNumAlignBits) + v / 2 ^ kNumAlignBits % 2 ^ (n - kNumAlignBits) := by
          rw [← hdiv, hexp, ← Nat.div_div_eq_div_mul, Nat.div_add_mod']
        have hlow := Nat.mod_lt (v / 2 ^ kNumAlignBits) (Nat.two_pow_pos (n - kNumAlignBits))
        have hlt28 : v / 2 ^ kNumAlignBits < 2 ^ 28 := by
          rw [Nat.succ_mul] at htop
          omega
        refine ⟨v / 2 ^ kNumAlignBits, _, _, rfl, ?_, ?_⟩
        · refine (ends_directLoop (htop.trans (by norm_num))).2 ⟨_, hlow, ?_, hv⟩
          exact bitsMsb_congr (Nat.mod_mod _ _).symm
        · rw [Nat.mod_eq_of_lt (by simp only [kNumAlignBits] at hlt28 ⊢; omega)]
          exact (ends_lowBits (Nat.mul_mod_left _ _)).2 ⟨rfl, rfl⟩

lemma ends_decodeDistance {len v : ℕ} :
    Ends (decodeDistance len) bs (.ok v) ↔ v < 2 ^ 32 ∧ bs = distanceCode v := by
  rw [decodeDistance, ends_bind, distanceCode]
  constructor
  · rintro ⟨slot, cs, ds, rfl, htree, hbits⟩
    obtain ⟨hslot, rfl⟩ := ends_bitTree.1 htree
    obtain ⟨⟨hv, rfl⟩, rfl⟩ := (ends_decodeDistanceBits hslot).1 hbits
    exact ⟨hv, rfl⟩
  · rintro ⟨hv, rfl⟩
    exact ⟨slotOf v, _, _, rfl, ends_bitTree.2 ⟨slotOf_lt hv, rfl⟩,
      (ends_decodeDistanceBits (slotOf_lt hv)).2 ⟨⟨hv, rfl⟩, rfl⟩⟩

/-! ### Literals -/

/-- `n` bits of a symbol are left, which has its leading 1 at bit 8 then. -/
structure Left (n symbol : ℕ) : Prop where
  le : 0x100 ≤ symbol * 2 ^ n
  lt : (symbol + 1) * 2 ^ n ≤ 0x200

lemma Left.next {n symbol : ℕ} (h : Left (n + 1) symbol) (b : Bool) :
    Left n (2 * symbol + b.toNat) := by
  have hb := Bool.toNat_le b
  constructor
  · calc 0x100 ≤ symbol * 2 ^ (n + 1) := h.le
      _ = 2 * symbol * 2 ^ n := by ring
      _ ≤ (2 * symbol + b.toNat) * 2 ^ n := Nat.mul_le_mul_right _ (Nat.le_add_right _ _)
  · calc (2 * symbol + b.toNat + 1) * 2 ^ n ≤ 2 * (symbol + 1) * 2 ^ n :=
          Nat.mul_le_mul_right _ (by omega)
      _ = (symbol + 1) * 2 ^ (n + 1) := by ring
      _ ≤ 0x200 := h.lt

/-- The leading 1 has reached bit 8 when no bit is left. -/
lemma Left.lt_iff {n symbol : ℕ} (h : Left n symbol) : symbol < 0x100 ↔ n ≠ 0 := by
  have hle := h.le
  have hlt := h.lt
  constructor
  · rintro hsymbol rfl
    omega
  · intro hn
    obtain ⟨k, rfl⟩ : ∃ k, n = k + 1 := ⟨n - 1, by omega⟩
    have hpow : 2 ≤ 2 ^ (k + 1) := Nat.le_self_pow hn 2
    have := Nat.mul_le_mul_left (symbol + 1) hpow
    omega

lemma ends_symbolLoop {prob rounds n symbol v : ℕ} (hn : n ≤ rounds) (h : Left n symbol) :
    Ends (symbolLoop prob rounds symbol) bs (.ok v) ↔ Tail n symbol bs v := by
  induction n generalizing rounds symbol bs with
  | zero =>
    have hsymbol : ¬ symbol < 0x100 := fun hlt => h.lt_iff.1 hlt rfl
    have hdone : symbolLoop prob rounds symbol = done symbol := by
      cases rounds with
      | zero => exact if_neg hsymbol
      | succ rounds => exact if_neg hsymbol
    rw [hdone, ends_done, tail_zero]
  | succ n ih =>
    obtain ⟨rounds, rfl⟩ : ∃ k, rounds = k + 1 := ⟨rounds - 1, by omega⟩
    rw [symbolLoop, if_pos (h.lt_iff.2 (Nat.succ_ne_zero n)), ends_getBit, tail_succ]
    simp only [ih (Nat.le_of_succ_le_succ hn) (h.next _)]

/-- The bits of a literal are the same whether they are compared to those of another byte or not. -/
lemma ends_matchedLoop {prob rounds n matchByte symbol v : ℕ} (hn : n < rounds) (hn8 : n < 8)
    (h : Left (n + 1) symbol) :
    Ends (matchedLoop prob rounds matchByte symbol >>= symbolLoop prob 8) bs (.ok v) ↔
      Tail (n + 1) symbol bs v := by
  induction rounds generalizing n matchByte symbol bs with
  | zero => exact absurd hn (Nat.not_lt_zero n)
  | succ rounds ih =>
    rw [tail_succ]
    refine ends_ask.trans (exists_congr fun b => exists_congr fun cs => and_congr_right fun _ => ?_)
    change Ends ((if b = decide ((matchByte <<< 1 &&& 0x100) ≠ 0) ∧ 2 * symbol + b.toNat < 0x100
      then matchedLoop prob rounds (matchByte <<< 1) (2 * symbol + b.toNat)
      else return 2 * symbol + b.toNat) >>= symbolLoop prob 8) cs (.ok v) ↔ _
    split_ifs with hsame
    · have hn0 := (h.next b).lt_iff.1 hsame.2
      obtain ⟨k, rfl⟩ : ∃ k, n = k + 1 := ⟨n - 1, by omega⟩
      exact ih (by omega) (by omega) (h.next b)
    · exact ends_symbolLoop (by omega) (h.next b)

end ApuBios.Lzma
