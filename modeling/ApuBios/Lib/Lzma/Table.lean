import ApuBios.Lib.Lzma.Round

/-!
# The table of probabilities

All that the decoder asks for is in the table, and what it stops with is never a fault
(`sat_decodeRounds`).
-/

namespace ApuBios.Lzma

open DecisionTree

/-- What `LzmaDecodeProperties` leaves of the properties. -/
structure CLzmaProperties.Ok (props : CLzmaProperties) : Prop where
  lc : props.lc ≤ 8
  lp : props.lp ≤ 4
  pb : props.pb ≤ kNumPosBitsMax

lemma ok_of_lzmaDecodeProperties {propsData : List UInt8} {props : CLzmaProperties}
    (h : lzmaDecodeProperties propsData = some props) : props.Ok := by
  rw [lzmaDecodeProperties] at h
  dsimp only at h
  split_ifs at h with hsize hprop0
  cases h
  rw [not_le] at hprop0
  exact ⟨Nat.le_of_lt_succ (Nat.mod_lt _ (by decide)),
    Nat.le_of_lt_succ (Nat.div_lt_of_lt_mul (Nat.mod_lt _ (by decide))),
    Nat.le_of_lt_succ (Nat.div_lt_of_lt_mul hprop0)⟩

def InTable (numProbs : ℕ) : Question → Prop
  | .prob p => p < numProbs
  | .direct => True

variable {props : CLzmaProperties} {outSize numProbs : ℕ} {s : State}

/-- The questions are in the table, and there are no faults. -/
abbrev Safe (numProbs : ℕ) {α : Type} (Q : α → Prop) (t : Program α) : Prop :=
  Sat (InTable numProbs) Q (· = .dataError) t

lemma safe_getBit {α : Type} {Q : α → Prop} {p : ℕ} {f : Bool → Program α} (hp : p < numProbs)
    (hf : ∀ b, Safe numProbs Q (f b)) : Safe numProbs Q (getBit p >>= f) := ⟨hp, hf⟩

/-! ### Numbers -/

/-- Of a table of `size` probabilities half is left for every bit. -/
lemma half_left {n res size : ℕ} (h : (res + 1) * 2 ^ (n + 1) ≤ 2 * size) (b : Bool) :
    res < size ∧ (2 * res + b.toNat + 1) * 2 ^ n ≤ 2 * size := by
  have hb := Bool.toNat_le b
  constructor
  · have := Nat.le_mul_of_pos_right (res + 1) (Nat.two_pow_pos n)
    rw [pow_succ, ← Nat.mul_assoc] at h
    omega
  · calc (2 * res + b.toNat + 1) * 2 ^ n ≤ 2 * (res + 1) * 2 ^ n := Nat.mul_le_mul_right _ (by omega)
      _ = (res + 1) * 2 ^ (n + 1) := by ring
      _ ≤ 2 * size := h

lemma safe_bitTreeLoop {probs n res size : ℕ} (hsize : probs + size ≤ numProbs)
    (h : (res + 1) * 2 ^ n ≤ 2 * size) :
    Safe numProbs (· < 2 * size) (bitTreeLoop probs n res) := by
  induction n generalizing res with
  | zero => exact sat_done (by omega)
  | succ n ih =>
    exact safe_getBit (by have := (half_left h false).1; omega) fun b => ih (half_left h b).2

lemma safe_bitTree {probs n : ℕ} (hsize : probs + 2 ^ n ≤ numProbs) :
    Safe numProbs (· < 2 ^ n) (rangeDecoderBitTreeDecode probs n) := by
  refine (safe_bitTreeLoop hsize le_rfl).bind fun res hres => ?_
  refine sat_done ?_
  rw [Nat.shiftLeft_eq, Nat.one_mul]
  omega

lemma safe_directLoop {n rep0 : ℕ} : Safe numProbs (fun _ => True) (directLoop n rep0) := by
  induction n generalizing rep0 with
  | zero => exact sat_done trivial
  | succ n ih => exact ⟨trivial, fun b => ih⟩

lemma safe_reverseLoop (size : ℕ) {prob n mi i rep0 : ℕ} (hsize : prob + size ≤ numProbs)
    (h : (mi + 1) * 2 ^ n ≤ 2 * size) :
    Safe numProbs (fun _ => True) (reverseLoop prob n mi i rep0) := by
  induction n generalizing mi i rep0 with
  | zero => exact sat_done trivial
  | succ n ih =>
    exact safe_getBit (by have := (half_left h false).1; omega) fun b => ih (half_left h b).2

/-! ### Symbols -/

lemma safe_symbolLoop {prob rounds n symbol : ℕ} (hsize : prob + 0x100 ≤ numProbs) (hn : n ≤ rounds)
    (h : Left n symbol) : Safe numProbs (fun _ => True) (symbolLoop prob rounds symbol) := by
  induction rounds generalizing n symbol with
  | zero =>
    obtain rfl : n = 0 := by omega
    rw [symbolLoop, if_neg fun hlt => h.lt_iff.1 hlt rfl]
    exact sat_done trivial
  | succ rounds ih =>
    rw [symbolLoop]
    split_ifs with hlt
    · have hn0 := h.lt_iff.1 hlt
      obtain ⟨n, rfl⟩ : ∃ k, n = k + 1 := ⟨n - 1, by omega⟩
      exact safe_getBit (by omega) fun b => ih (by omega) (h.next b)
    · exact sat_done trivial

lemma safe_matchedLoop {prob rounds n matchByte symbol : ℕ} (hsize : prob + LZMA_LIT_SIZE ≤ numProbs)
    (hn : n < rounds) (h : Left (n + 1) symbol) :
    Safe numProbs (fun symbol => ∃ k ≤ n, Left k symbol) (matchedLoop prob rounds matchByte symbol) := by
  simp only [LZMA_LIT_SIZE] at hsize
  induction rounds generalizing n matchByte symbol with
  | zero => exact absurd hn (Nat.not_lt_zero n)
  | succ rounds ih =>
    have hsymbol := h.lt_iff.2 (Nat.succ_ne_zero n)
    have hbit : matchByte <<< 1 &&& 0x100 ≤ 0x100 := Nat.and_le_right
    refine ⟨?_, fun b => ?_⟩
    · change prob + 0x100 + (matchByte <<< 1 &&& 0x100) + symbol < numProbs
      omega
    · change Safe numProbs _ (if b = decide ((matchByte <<< 1 &&& 0x100) ≠ 0) ∧
          2 * symbol + b.toNat < 0x100
        then matchedLoop prob rounds (matchByte <<< 1) (2 * symbol + b.toNat)
        else return 2 * symbol + b.toNat)
      split_ifs with hsame
      · have hn0 := (h.next b).lt_iff.1 hsame.2
        obtain ⟨n, rfl⟩ : ∃ k, n = k + 1 := ⟨n - 1, by omega⟩
        refine (ih (by omega) (h.next b)).mono ?_
        rintro symbol ⟨k, hk, hleft⟩
        exact ⟨k, Nat.le_succ_of_le hk, hleft⟩
      · exact sat_done ⟨n, le_rfl, h.next b⟩

/-- A number that is counted from `k`. -/
lemma safe_bitTree_add {probs n k : ℕ} (hsize : probs + 2 ^ n ≤ numProbs) :
    Safe numProbs (fun _ => True) (rangeDecoderBitTreeDecode probs n >>= fun len => pure (len + k)) :=
  (safe_bitTree hsize).bind fun _ _ => sat_done trivial

lemma safe_decodeLen {prob posState : ℕ} (hsize : prob + kNumLenProbs ≤ numProbs)
    (hpos : posState < kNumPosStatesMax) :
    Safe numProbs (fun _ => True) (decodeLen prob posState) := by
  have hlow : posState <<< kLenNumLowBits = posState * 8 := Nat.shiftLeft_eq posState 3
  have hmid : posState <<< kLenNumMidBits = posState * 8 := Nat.shiftLeft_eq posState 3
  have hsize' : prob + 514 ≤ numProbs := hsize
  have hpos' : posState < 16 := hpos
  refine safe_getBit (Nat.lt_of_lt_of_le (Nat.lt_add_of_pos_right (by decide)) hsize) fun b => ?_
  cases b with
  | false =>
    refine (safe_bitTree ?_).mono fun _ _ => trivial
    rw [hlow]
    change prob + 2 + posState * 8 + 8 ≤ numProbs
    omega
  | true =>
    refine safe_getBit (show prob + 1 < numProbs by omega) fun b => ?_
    cases b with
    | false =>
      refine safe_bitTree_add ?_
      rw [hmid]
      change prob + 130 + posState * 8 + 8 ≤ numProbs
      omega
    | true => exact safe_bitTree_add hsize

lemma safe_decodeDistanceBits {slot : ℕ} (hsize : LZMA_BASE_SIZE ≤ numProbs) :
    Safe numProbs (fun _ => True) (decodeDistanceBits slot) := by
  have hsize' : 1846 ≤ numProbs := hsize
  rw [decodeDistanceBits]
  simp only [leading_bits, Nat.shiftRight_succ, Nat.shiftRight_zero, Nat.shiftLeft_eq]
  split_ifs with hstart hmid
  · simp only [kEndPosModelIndex] at hmid
    have hn : slot / 2 - 1 ≤ 5 := by omega
    have hpow : 2 ^ (slot / 2 - 1) ≤ 2 ^ 5 := Nat.pow_le_pow_right (by decide) hn
    have hhead : (2 + slot % 2) * 2 ^ (slot / 2 - 1) ≤ 3 * 2 ^ 5 := Nat.mul_le_mul (by omega) hpow
    refine safe_reverseLoop (2 ^ (slot / 2 - 1)) ?_ le_rfl
    have hmod := Nat.mod_le ((2 + slot % 2) * 2 ^ (slot / 2 - 1)) (2 ^ 32)
    change 688 + (2 + slot % 2) * 2 ^ (slot / 2 - 1) % 2 ^ 32 - slot - 1 + 2 ^ (slot / 2 - 1) ≤ numProbs
    omega
  · refine safe_directLoop.bind fun rep0 _ => ?_
    exact safe_reverseLoop (2 ^ kNumAlignBits) ((show align + 2 ^ kNumAlignBits ≤ 1846 by
      decide).trans hsize') le_rfl
  · exact sat_done trivial

lemma safe_decodeDistance {len : ℕ} (hsize : LZMA_BASE_SIZE ≤ numProbs) :
    Safe numProbs (fun _ => True) (decodeDistance len) := by
  have hsize' : 1846 ≤ numProbs := hsize
  have hstate : (if len < kNumLenToPosStates then len else kNumLenToPosStates - 1) ≤ 3 := by
    change (if len < 4 then len else 3) ≤ 3
    split_ifs <;> omega
  refine (safe_bitTree ?_).bind fun _ _ => safe_decodeDistanceBits hsize
  rw [Nat.shiftLeft_eq]
  change 432 + (if len < kNumLenToPosStates then len else kNumLenToPosStates - 1) * 64 + 64 ≤ numProbs
  omega

/-! ### Rounds -/

lemma base_le : LZMA_BASE_SIZE ≤ lzmaGetNumProbs props := Nat.le_add_right _ _

lemma posState_lt (hprops : props.Ok) : posState props s < kNumPosStatesMax := by
  have hpow : 1 <<< props.pb ≤ 1 <<< kNumPosBitsMax := by
    rw [Nat.shiftLeft_eq, Nat.shiftLeft_eq]
    exact Nat.mul_le_mul_left _ (Nat.pow_le_pow_right (by decide) hprops.pb)
  have hpos : 0 < 1 <<< props.pb := by
    rw [Nat.shiftLeft_eq]
    positivity
  have hle : posState props s ≤ 1 <<< props.pb - 1 := Nat.and_le_right
  rw [kNumPosStatesMax]
  omega

/-- The literals of every position and every byte before have a part of the table. -/
lemma literalProb_le (hprops : props.Ok) :
    literalProb props s + LZMA_LIT_SIZE ≤ lzmaGetNumProbs props := by
  have hpos : s.nowPos &&& (1 <<< props.lp - 1) < 2 ^ props.lp := by
    have hle : s.nowPos &&& (1 <<< props.lp - 1) ≤ 1 <<< props.lp - 1 := Nat.and_le_right
    rw [Nat.shiftLeft_eq, Nat.one_mul] at hle ⊢
    have := Nat.two_pow_pos props.lp
    omega
  have hbyte : s.previousByte.toNat >>> (8 - props.lc) < 2 ^ props.lc := by
    rw [Nat.shiftRight_eq_div_pow]
    refine (Nat.div_lt_iff_lt_mul (by positivity)).2 ?_
    rw [← pow_add, Nat.add_sub_cancel' hprops.lc]
    exact s.previousByte.toNat_lt
  have hindex : (s.nowPos &&& (1 <<< props.lp - 1)) <<< props.lc +
      s.previousByte.toNat >>> (8 - props.lc) + 1 ≤ 2 ^ (props.lc + props.lp) := by
    rw [Nat.shiftLeft_eq]
    calc _ ≤ (s.nowPos &&& (1 <<< props.lp - 1)) * 2 ^ props.lc + 2 ^ props.lc := by omega
      _ = ((s.nowPos &&& (1 <<< props.lp - 1)) + 1) * 2 ^ props.lc := by ring
      _ ≤ 2 ^ props.lp * 2 ^ props.lc := Nat.mul_le_mul_right _ hpos
      _ = 2 ^ (props.lc + props.lp) := by rw [← pow_add, Nat.add_comm]
  rw [literalProb, literal_eq, lzmaGetNumProbs, Nat.shiftLeft_eq LZMA_LIT_SIZE, Nat.add_assoc,
    ← Nat.mul_succ]
  exact Nat.add_le_add_left (Nat.mul_le_mul_left _ hindex) _

lemma safe_decodeLiteral (hprops : props.Ok) (hs : s.Inv outSize) :
    Safe (lzmaGetNumProbs props) (fun _ => True) (decodeLiteral props s) := by
  have hsize := literalProb_le (s := s) hprops
  have hsmall : literalProb props s + 0x100 ≤ lzmaGetNumProbs props :=
    (Nat.add_le_add_left (by decide) _).trans hsize
  have hleft : Left 8 1 := ⟨by decide, by decide⟩
  have hsymbol : Safe (lzmaGetNumProbs props) (fun _ => True) (decodeSymbol props s) := by
    rw [decodeSymbol]
    split_ifs with hmatched
    · obtain ⟨hpos, hle⟩ := hs.reps s.rep0 List.mem_cons_self
      have hstarted := hs.started hmatched
      rw [readBack_eq hpos (by rw [← State.nowPos]; omega), done_bind]
      refine (safe_matchedLoop hsize (by decide) hleft).bind fun symbol hrest => ?_
      obtain ⟨k, hk, hrest⟩ := hrest
      exact safe_symbolLoop hsmall (by omega) hrest
    · exact safe_symbolLoop hsmall le_rfl hleft
  exact hsymbol.bind fun _ _ => sat_done trivial

lemma safe_copyMatch {len : ℕ} (hpos : 0 < s.rep0) (hroom : s.nowPos < outSize) :
    Safe numProbs (fun _ => True) (copyMatch outSize len s) := by
  rw [copyMatch]
  split_ifs with hlt
  · exact sat_fail rfl
  · rw [kMatchMinLen, copyLoop_eq hpos (not_lt.1 hlt) hroom]
    exact sat_done trivial

lemma safe_decodeShortRep (hs : s.Inv outSize) :
    Safe numProbs (fun _ => True) (decodeShortRep s) := by
  rw [decodeShortRep]
  by_cases hzero : s.nowPos = 0
  · rw [if_pos hzero]
    exact sat_fail rfl
  · obtain ⟨hpos, hmax⟩ := hs.reps s.rep0 List.mem_cons_self
    rw [if_neg hzero, readBack_eq hpos (by rw [← State.nowPos]; omega), done_bind]
    exact sat_done trivial

/-- The flags of a state are in the table. -/
lemma flag_lt {base : ℕ} (hs : s.Inv outSize) (hbase : base + kNumStates ≤ LZMA_BASE_SIZE) :
    base + s.state < lzmaGetNumProbs props :=
  (Nat.add_lt_add_left hs.state_lt base).trans_le (hbase.trans base_le)

/-- The flags of a state and a position are in the table. -/
lemma posFlag_lt {base : ℕ} (hprops : props.Ok) (hs : s.Inv outSize)
    (hbase : base + kNumStates <<< kNumPosBitsMax ≤ LZMA_BASE_SIZE) :
    base + s.state <<< kNumPosBitsMax + posState props s < lzmaGetNumProbs props := by
  have hpos : posState props s < 16 := posState_lt hprops
  have hstate : s.state < 12 := hs.state_lt
  have hshift : s.state <<< kNumPosBitsMax = s.state * 16 := Nat.shiftLeft_eq s.state 4
  have hall : kNumStates <<< kNumPosBitsMax = 192 := rfl
  have : LZMA_BASE_SIZE ≤ lzmaGetNumProbs props := base_le
  omega

lemma safe_decodeRepMatch (hprops : props.Ok) {s' : State} (hpos : 0 < s'.rep0)
    (hroom : s'.nowPos < outSize) :
    Safe (lzmaGetNumProbs props) (fun _ => True) (decodeRepMatch outSize s' (posState props s)) := by
  refine (safe_decodeLen ((show repLenCoder + kNumLenProbs ≤ LZMA_BASE_SIZE by decide).trans base_le)
    (posState_lt hprops)).bind fun _ _ => ?_
  exact safe_copyMatch (s := s'.goto (repState s'.state)) hpos hroom

lemma safe_decodeMatch (hprops : props.Ok) (hroom : s.nowPos < outSize) :
    Safe (lzmaGetNumProbs props) (fun _ => True) (decodeMatch outSize s (posState props s)) := by
  refine (safe_decodeLen ((show lenCoder + kNumLenProbs ≤ LZMA_BASE_SIZE by decide).trans base_le)
    (posState_lt hprops)).bind fun len _ => (safe_decodeDistance base_le).bind fun rep0 _ => ?_
  by_cases hzero : Word.add 32 rep0 1 = 0
  · rw [if_pos hzero]
    exact sat_done trivial
  · rw [if_neg hzero]
    exact safe_copyMatch (s := (s.shift (Word.add 32 rep0 1)).goto (matchState s.state))
      (Nat.pos_of_ne_zero hzero) hroom

lemma safe_decodeRep (hs : s.Inv outSize) :
    Safe (lzmaGetNumProbs props) (fun s' => ∃ i, s' = s.use i) (decodeRep s) := by
  refine safe_getBit (flag_lt hs (by decide)) fun b => ?_
  cases b with
  | false => exact sat_done ⟨1, rfl⟩
  | true =>
    refine safe_getBit (flag_lt hs (by decide)) fun b => ?_
    cases b with
    | false => exact sat_done ⟨2, rfl⟩
    | true => exact sat_done ⟨3, rfl⟩

lemma safe_decodeRound (hprops : props.Ok) (hs : s.Inv outSize) (hroom : s.nowPos < outSize) :
    Safe (lzmaGetNumProbs props) (fun _ => True) (decodeRound props outSize s) := by
  have hrep : ∀ i, Safe (lzmaGetNumProbs props) (fun _ => True)
      (decodeRepMatch outSize (s.use i) (posState props s)) := fun i =>
    safe_decodeRepMatch hprops (rep0_use_pos hs i) (by rwa [use_nowPos])
  refine safe_getBit (posFlag_lt hprops hs (by decide)) fun matched => ?_
  cases matched with
  | false => exact safe_decodeLiteral hprops hs
  | true =>
    refine safe_getBit (flag_lt hs (by decide)) fun rep => ?_
    cases rep with
    | false => exact safe_decodeMatch hprops hroom
    | true =>
      refine safe_getBit (flag_lt hs (by decide)) fun g0 => ?_
      cases g0 with
      | false =>
        refine safe_getBit (posFlag_lt hprops hs (by decide)) fun long => ?_
        cases long with
        | false => exact safe_decodeShortRep hs
        | true => exact hrep 0
      | true =>
        refine (safe_decodeRep hs).bind fun s' hs' => ?_
        obtain ⟨i, rfl⟩ := hs'
        exact hrep i

/-- The end of a round. -/
lemma safe_decodeRound_next (hprops : props.Ok) (hs : s.Inv outSize) (hroom : s.nowPos < outSize)
    (hout : outSize < 2 ^ 32) :
    Safe (lzmaGetNumProbs props) (fun next => ∃ t : Token, t.Valid s.window ∧ next = s.after outSize t)
      (decodeRound props outSize s) := by
  refine (safe_decodeRound hprops hs hroom).ends.mono ?_
  rintro next ⟨bs, hends⟩
  obtain ⟨t, ht, -, rfl⟩ := (ends_decodeRound hs hroom hout).1 hends
  exact ⟨t, ht, rfl⟩

/-- The loop ends, within the table and without a fault. -/
theorem safe_decodeRounds {rounds : ℕ} (hprops : props.Ok) (hs : s.Inv outSize)
    (hrounds : outSize ≤ s.nowPos + rounds) (hout : outSize < 2 ^ 32) :
    Safe (lzmaGetNumProbs props) (fun _ => True) (decodeRounds props outSize rounds s) := by
  induction rounds generalizing s with
  | zero =>
    rw [decodeRounds_full (by omega)]
    exact sat_done trivial
  | succ rounds ih =>
    rw [decodeRounds]
    split_ifs with hroom
    · refine (safe_decodeRound_next hprops hs hroom hout).bind fun next hnext => ?_
      obtain ⟨t, ht, rfl⟩ := hnext
      cases hafter : s.after outSize t with
      | finished s' => exact sat_done trivial
      | more s' =>
        obtain ⟨hs', hgrown⟩ := hs.after hroom ht hafter
        exact ih hs' (by omega)
    · exact sat_done trivial

end ApuBios.Lzma
