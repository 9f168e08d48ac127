import ApuBios.Lib.Lzma.Bits

/-!
# A round of the decoder

In a round the decoder asks for the code of a token that is valid, and does what it says
(`ends_decodeRound`). The program of all rounds asks for the codes of tokens that go on until the
output is full or the end marker comes (`ends_decodeRounds`).
-/

namespace ApuBios.Lzma

open DecisionTree

variable {props : CLzmaProperties} {outSize : ℕ} {bs : List Bool} {s : State} {next : Next}

/-! ### What a token does to the variables -/

/-- The part of the variables that has a meaning of its own. -/
def State.window (s : State) : Window := ⟨s.out, s.rep0, s.rep1, s.rep2, s.rep3⟩

/-- `state` is in range, and the distances do not reach back beyond the first byte, unless none has
been written and they are as in the beginning. -/
structure State.Inv (outSize : ℕ) (s : State) : Prop where
  state_lt : s.state < kNumStates
  nowPos_le : s.nowPos ≤ outSize
  started : kNumLitStates ≤ s.state → 0 < s.nowPos
  reps : ∀ r ∈ [s.rep0, s.rep1, s.rep2, s.rep3], 0 < r ∧ r ≤ max 1 s.nowPos

lemma inv_init (outSize : ℕ) : State.Inv outSize {} := by
  refine ⟨by decide, Nat.zero_le _, fun h => absurd h (by decide), fun r hr => ?_⟩
  simp only [List.mem_cons, List.not_mem_nil, or_false, or_self] at hr
  exact ⟨by omega, by omega⟩

/-- `state` after a literal, and after the kinds of copies. -/
def literalState (state : ℕ) : ℕ := if state < 4 then 0 else if state < 10 then state - 3 else state - 6
def matchState (state : ℕ) : ℕ := (if state < kNumLitStates then 0 else 3) + kNumLitStates
def repState (state : ℕ) : ℕ := if state < kNumLitStates then 8 else 11
def shortRepState (state : ℕ) : ℕ := if state < kNumLitStates then 9 else 11

def State.use (s : State) : Fin 4 → State
  | 0 => s
  | 1 => { s with rep0 := s.rep1, rep1 := s.rep0 }
  | 2 => { s with rep0 := s.rep2, rep1 := s.rep0, rep2 := s.rep1 }
  | 3 => { s with rep0 := s.rep3, rep1 := s.rep0, rep2 := s.rep1, rep3 := s.rep2 }

def State.shift (s : State) (rep0 : ℕ) : State :=
  { s with rep0 := rep0, rep1 := s.rep0, rep2 := s.rep1, rep3 := s.rep2 }

def State.goto (s : State) (state : ℕ) : State := { s with state := state }

def State.copy (outSize len : ℕ) (s : State) : State :=
  let out := (Lz77.copy s.rep0 len s.out).take outSize
  { s with out := out, previousByte := out.getLastD 0 }

def State.after (outSize : ℕ) (s : State) : Token → Next
  | .literal b => .more ((s.put b).goto (literalState s.state))
  | .shortRep => .more ((s.copy outSize 1).goto (shortRepState s.state))
  | .rep i len => .more (((s.use i).goto (repState s.state)).copy outSize len)
  | .matched distance len => .more (((s.shift distance).goto (matchState s.state)).copy outSize len)
  | .marker _ => .finished ((s.shift 0).goto (matchState s.state))

lemma window_use (i : Fin 4) : (s.use i).window = s.window.use i := by
  fin_cases i <;> rfl

@[simp] lemma use_out (i : Fin 4) : (s.use i).out = s.out := by
  fin_cases i <;> rfl

@[simp] lemma use_nowPos (i : Fin 4) : (s.use i).nowPos = s.nowPos := by
  rw [State.nowPos, use_out, State.nowPos]

@[simp] lemma use_state (i : Fin 4) : (s.use i).state = s.state := by
  fin_cases i <;> rfl

lemma window_after {s' : State} {t : Token} (h : s.after outSize t = .more s') :
    s'.window = s.window.step outSize t := by
  cases t with
  | marker len => cases h
  | rep i len =>
    cases h
    rw [Window.step, ← window_use]
    rfl
  | literal b => cases h; rfl
  | shortRep => cases h; rfl
  | matched distance len => cases h; rfl

/-! ### Copies -/

lemma readBack_eq {out : List UInt8} {rep0 : ℕ} (hpos : 0 < rep0) (hle : rep0 ≤ out.length) :
    readBack out rep0 = done (out.get ⟨out.length - rep0, by omega⟩) := by
  rw [readBack, if_pos ⟨hpos, hle⟩, List.getD_eq_getElem _ _ (by omega)]
  rfl

lemma put_copy {len : ℕ} (hpos : 0 < s.rep0) (hle : s.rep0 ≤ s.nowPos) :
    (s.put (s.out.get ⟨s.nowPos - s.rep0, by rw [State.nowPos] at *; omega⟩)).copy outSize len =
      s.copy outSize (len + 1) := by
  simp only [State.copy, State.put, Lz77.copy_succ hpos hle]
  rfl

@[simp] lemma put_nowPos (s : State) (b : UInt8) : (s.put b).nowPos = s.nowPos + 1 := by
  rw [State.nowPos, State.put, List.length_append, List.length_singleton, State.nowPos]

/-- Nothing is copied where there is no room. -/
lemma copy_eq_self {b : UInt8} {len : ℕ} (hpos : 0 < s.rep0) (hle : s.rep0 ≤ s.nowPos)
    (hroom : s.nowPos < outSize) (h : len = 0 ∨ s.nowPos + 1 = outSize) :
    (s.put b).copy outSize len = s.put b := by
  have hout : (Lz77.copy s.rep0 len (s.out ++ [b])).take outSize = s.out ++ [b] := by
    have hlen : (s.out ++ [b]).length = s.nowPos + 1 := put_nowPos s b
    rcases h with rfl | hfull
    · rw [Lz77.copy_zero, List.take_of_length_le (by omega)]
    · rw [← hfull, ← hlen]
      exact Lz77.take_length_copy hpos (by omega)
  simp only [State.copy, State.put, hout, List.getLastD_concat]

/-- The loop stops where there is no room, and what would have followed is cut off. -/
lemma copyLoop_eq {len : ℕ} (hpos : 0 < s.rep0) (hle : s.rep0 ≤ s.nowPos) (hroom : s.nowPos < outSize) :
    copyLoop outSize (len + 1) s = done (s.copy outSize (len + 1)) := by
  induction len generalizing s with
  | zero =>
    rw [copyLoop, readBack_eq hpos hle, done_bind, ← put_copy hpos hle,
      copy_eq_self hpos hle hroom (.inl rfl)]
    rfl
  | succ len ih =>
    rw [copyLoop, readBack_eq hpos hle, done_bind, ← put_copy hpos hle]
    set b := s.out.get ⟨s.out.length - s.rep0, by rw [State.nowPos] at hle; omega⟩
    by_cases hmore : s.nowPos + 1 < outSize
    · rw [if_pos ⟨Nat.succ_ne_zero len, by rwa [put_nowPos]⟩]
      exact ih (s := s.put b) hpos (by rw [put_nowPos]; exact Nat.le_succ_of_le hle)
        (by rwa [put_nowPos])
    · rw [if_neg (fun h => hmore (by rw [← put_nowPos s b]; exact h.2))]
      exact congrArg done (copy_eq_self hpos hle hroom (.inr (by omega))).symm

lemma ends_copyMatch {len : ℕ} (hpos : 0 < s.rep0) (hroom : s.nowPos < outSize) :
    Ends (copyMatch outSize len s) bs (.ok next) ↔
      s.rep0 ≤ s.nowPos ∧ bs = [] ∧ next = .more (s.copy outSize (len + kMatchMinLen)) := by
  by_cases hle : s.rep0 ≤ s.nowPos
  · have hcopy : copyMatch outSize len s = done (.more (s.copy outSize (len + kMatchMinLen))) := by
      rw [copyMatch, if_neg (not_lt.2 hle), kMatchMinLen, copyLoop_eq hpos hle hroom]
      rfl
    rw [hcopy, ends_done]
    exact ⟨fun h => ⟨hle, h.1, h.2.symm⟩, fun h => ⟨h.2.1, h.2.2.symm⟩⟩
  · rw [copyMatch, if_pos (not_le.1 hle)]
    exact ⟨fun h => absurd h not_ends_fail, fun h => absurd h.1 hle⟩

/-! ### Literals -/

/-- A literal that is compared to a byte is so after a copy, so that there is such a byte. -/
lemma ends_decodeSymbol (hs : s.Inv outSize) {v : ℕ} :
    Ends (decodeSymbol props s) bs (.ok v) ↔ Tail 8 1 bs v := by
  have hleft : Left 8 1 := ⟨by decide, by decide⟩
  rw [decodeSymbol]
  split_ifs with hmatched
  · obtain ⟨hpos, hle⟩ := hs.reps s.rep0 List.mem_cons_self
    have hstarted := hs.started hmatched
    rw [readBack_eq hpos (by rw [← State.nowPos]; omega), done_bind]
    exact ends_matchedLoop (by decide) (by decide) hleft
  · exact ends_symbolLoop le_rfl hleft

lemma ends_decodeLiteral (hs : s.Inv outSize) :
    Ends (decodeLiteral props s) bs (.ok next) ↔
      ∃ b : UInt8, bs = bitsMsb 8 b.toNat ∧ next = s.after outSize (.literal b) := by
  rw [decodeLiteral, ends_bind]
  constructor
  · rintro ⟨v, cs, ds, rfl, hsymbol, hdone⟩
    obtain ⟨x, hx, rfl, rfl⟩ := (ends_decodeSymbol hs).1 hsymbol
    obtain ⟨rfl, rfl⟩ := ends_done.1 hdone
    have hbyte : UInt8.ofNat (1 * 2 ^ 8 + x) = UInt8.ofNat x := by
      rw [← UInt8.toNat_inj, UInt8.toNat_ofNat', UInt8.toNat_ofNat', Nat.one_mul, Nat.add_mod_left]
    refine ⟨UInt8.ofNat x, ?_, ?_⟩
    · rw [List.append_nil, UInt8.toNat_ofNat', Nat.mod_eq_of_lt hx]
    · rw [hbyte]
      rfl
  · rintro ⟨b, rfl, rfl⟩
    refine ⟨1 * 2 ^ 8 + b.toNat, _, [], (List.append_nil _).symm,
      (ends_decodeSymbol hs).2 ⟨b.toNat, b.toNat_lt, rfl, rfl⟩, ends_done.2 ⟨rfl, ?_⟩⟩
    have hbyte : UInt8.ofNat (1 * 2 ^ 8 + b.toNat) = b := by
      rw [← UInt8.toNat_inj, UInt8.toNat_ofNat', Nat.one_mul, Nat.add_mod_left,
        Nat.mod_eq_of_lt b.toNat_lt]
    rw [hbyte]
    rfl

/-! ### Matches -/

/-- A length as it is asked for, and then in the token. -/
lemma ends_len_bind {prob posState : ℕ} {f : ℕ → Program Next} :
    Ends (decodeLen prob posState >>= f) bs (.ok next) ↔
      ∃ len cs, (kMatchMinLen ≤ len ∧ len ≤ kMatchMaxLen) ∧ bs = lenCode len ++ cs ∧
        Ends (f (len - kMatchMinLen)) cs (.ok next) := by
  rw [ends_bind]
  constructor
  · rintro ⟨v, cs, ds, rfl, hlen, hf⟩
    obtain ⟨hv, rfl⟩ := ends_decodeLen.1 hlen
    refine ⟨v + kMatchMinLen, ds, ⟨Nat.le_add_left _ _, hv⟩, rfl, ?_⟩
    rwa [Nat.add_sub_cancel]
  · rintro ⟨len, cs, ⟨hmin, hmax⟩, rfl, hf⟩
    refine ⟨len - kMatchMinLen, _, _, rfl, ends_decodeLen.2 ?_, hf⟩
    rw [Nat.sub_add_cancel hmin]
    exact ⟨hmax, rfl⟩

lemma ends_decodeRepMatch (hpos : 0 < s.rep0) (hroom : s.nowPos < outSize) {posState : ℕ} :
    Ends (decodeRepMatch outSize s posState) bs (.ok next) ↔
      ∃ len, (s.rep0 ≤ s.nowPos ∧ kMatchMinLen ≤ len ∧ len ≤ kMatchMaxLen) ∧ bs = lenCode len ∧
        next = .more ((s.goto (repState s.state)).copy outSize len) := by
  have hcopy : ∀ len cs, Ends (copyMatch outSize (len - kMatchMinLen) (s.goto (repState s.state))) cs
      (.ok next) ↔ _ := fun len cs => ends_copyMatch (s := s.goto (repState s.state)) hpos hroom
  rw [decodeRepMatch]
  refine ends_len_bind.trans ?_
  constructor
  · rintro ⟨len, cs, ⟨hmin, hmax⟩, rfl, hf⟩
    obtain ⟨hle, rfl, rfl⟩ := (hcopy len cs).1 hf
    refine ⟨len, ⟨hle, hmin, hmax⟩, List.append_nil _, ?_⟩
    rw [Nat.sub_add_cancel hmin]
  · rintro ⟨len, ⟨hle, hmin, hmax⟩, rfl, rfl⟩
    refine ⟨len, [], ⟨hmin, hmax⟩, (List.append_nil _).symm, (hcopy len []).2 ⟨hle, rfl, ?_⟩⟩
    rw [Nat.sub_add_cancel hmin]

/-- What follows the distance of a match. -/
lemma ends_distance (hroom : s.nowPos < outSize) {d len : ℕ} (hd : d < 2 ^ 32) (hmin : kMatchMinLen ≤ len) :
    Ends (if Word.add 32 d 1 = 0
      then return .finished ((s.shift (Word.add 32 d 1)).goto (matchState s.state))
      else copyMatch outSize (len - kMatchMinLen) ((s.shift (Word.add 32 d 1)).goto (matchState s.state)))
      bs (.ok next) ↔
    bs = [] ∧ if d = 2 ^ 32 - 1 then next = s.after outSize (.marker len)
      else d + 1 ≤ s.nowPos ∧ next = s.after outSize (.matched (d + 1) len) := by
  by_cases hlast : d = 2 ^ 32 - 1
  · have hadd : Word.add 32 d 1 = 0 := by rw [hlast]; rfl
    rw [hadd, if_pos rfl, if_pos hlast, pure_eq, ends_done]
    exact and_congr_right fun _ => eq_comm
  · have hadd : Word.add 32 d 1 = d + 1 := Word.add_eq (by omega)
    rw [hadd, if_neg (Nat.succ_ne_zero d), if_neg hlast]
    refine (ends_copyMatch (s := (s.shift (d + 1)).goto (matchState s.state)) (Nat.succ_pos d)
      hroom).trans ?_
    rw [Nat.sub_add_cancel hmin]
    exact and_left_comm

/-- A distance that does not exist is that of the end marker. -/
lemma ends_decodeMatch (hroom : s.nowPos < outSize) (hout : outSize < 2 ^ 32) {posState : ℕ} :
    Ends (decodeMatch outSize s posState) bs (.ok next) ↔
      (∃ distance len, (Token.matched distance len).Valid s.window ∧
        bs = lenCode len ++ distanceCode (distance - 1) ∧
        next = s.after outSize (.matched distance len)) ∨
      ∃ len, (Token.marker len).Valid s.window ∧ bs = lenCode len ++ distanceCode (2 ^ 32 - 1) ∧
        next = s.after outSize (.marker len) := by
  rw [decodeMatch]
  refine ends_len_bind.trans ?_
  constructor
  · rintro ⟨len, cs, hlen, rfl, h⟩
    obtain ⟨d, ds, es, rfl, hdistance, hrest⟩ := ends_bind.1 h
    obtain ⟨hd, rfl⟩ := ends_decodeDistance.1 hdistance
    obtain ⟨rfl, hnext⟩ := (ends_distance hroom hd hlen.1).1 hrest
    split_ifs at hnext with hlast
    · subst hlast
      exact .inr ⟨len, hlen, by rw [List.append_nil], hnext⟩
    · exact .inl ⟨d + 1, len, ⟨Nat.succ_pos d, hnext.1, hlen⟩, by rw [List.append_nil]; rfl, hnext.2⟩
  · rintro (⟨distance, len, ⟨hpos, hle, hlen⟩, rfl, rfl⟩ | ⟨len, hlen, rfl, rfl⟩)
    · have hle' : distance ≤ s.nowPos := hle
      have hd : distance - 1 < 2 ^ 32 := by omega
      refine ⟨len, _, hlen, rfl, ends_bind.2 ⟨distance - 1, _, [], (List.append_nil _).symm,
        ends_decodeDistance.2 ⟨hd, rfl⟩, (ends_distance hroom hd hlen.1).2 ⟨rfl, ?_⟩⟩⟩
      rw [if_neg (by omega), Nat.sub_add_cancel hpos]
      exact ⟨hle', rfl⟩
    · have hd : 2 ^ 32 - 1 < 2 ^ 32 := by decide
      refine ⟨len, _, hlen, rfl, ends_bind.2 ⟨2 ^ 32 - 1, _, [], (List.append_nil _).symm,
        ends_decodeDistance.2 ⟨hd, rfl⟩, (ends_distance hroom hd hlen.1).2 ⟨rfl, ?_⟩⟩⟩
      rw [if_pos rfl]

/-! ### Rounds -/

lemma ends_decodeShortRep (hs : s.Inv outSize) (hroom : s.nowPos < outSize) :
    Ends (decodeShortRep s) bs (.ok next) ↔
      Token.shortRep.Valid s.window ∧ bs = [] ∧ next = s.after outSize .shortRep := by
  have hvalid : Token.shortRep.Valid s.window ↔ s.nowPos ≠ 0 := by
    rw [Token.Valid, State.nowPos, ne_eq, ne_eq, List.length_eq_zero_iff]
    rfl
  rw [hvalid, decodeShortRep]
  by_cases hzero : s.nowPos = 0
  · rw [if_pos hzero]
    exact ⟨fun h => absurd h not_ends_fail, fun h => absurd hzero h.1⟩
  · rw [if_neg hzero]
    obtain ⟨hpos, hmax⟩ := hs.reps s.rep0 List.mem_cons_self
    have hle : s.rep0 ≤ s.nowPos := by omega
    have hput : s.put (s.out.get ⟨s.nowPos - s.rep0, by rw [State.nowPos] at *; omega⟩) =
        s.copy outSize 1 := by
      rw [← put_copy hpos hle]
      exact (copy_eq_self hpos hle hroom (.inl rfl)).symm
    rw [readBack_eq hpos hle, done_bind]
    refine ends_done.trans ⟨fun h => ⟨hzero, h.1, ?_⟩, fun h => ⟨h.2.1, ?_⟩⟩
    · rw [← h.2, State.after, ← hput]
      rfl
    · rw [h.2.2, State.after, ← hput]
      rfl

lemma ends_decodeRep {s' : State} :
    Ends (decodeRep s) bs (.ok s') ↔
      ∃ i : Fin 4, i ≠ 0 ∧ repCode i = true :: bs ∧ s' = s.use i := by
  rw [decodeRep, ends_getBit]
  constructor
  · rintro ⟨b, cs, rfl, h⟩
    cases b with
    | false =>
      obtain ⟨rfl, rfl⟩ := ends_done.1 h
      exact ⟨1, by decide, rfl, rfl⟩
    | true =>
      obtain ⟨c, ds, rfl, hdone⟩ := ends_getBit.1 h
      cases c with
      | false =>
        obtain ⟨rfl, rfl⟩ := ends_done.1 hdone
        exact ⟨2, by decide, rfl, rfl⟩
      | true =>
        obtain ⟨rfl, rfl⟩ := ends_done.1 hdone
        exact ⟨3, by decide, rfl, rfl⟩
  · rintro ⟨i, hi, hcode, rfl⟩
    fin_cases i
    · exact absurd rfl hi
    · cases hcode
      exact ⟨false, [], rfl, ends_done.2 ⟨rfl, rfl⟩⟩
    · cases hcode
      exact ⟨true, [false], rfl, ends_getBit.2 ⟨false, [], rfl, ends_done.2 ⟨rfl, rfl⟩⟩⟩
    · cases hcode
      exact ⟨true, [true], rfl, ends_getBit.2 ⟨true, [], rfl, ends_done.2 ⟨rfl, rfl⟩⟩⟩

lemma rep0_use_pos (hs : s.Inv outSize) (i : Fin 4) : 0 < (s.use i).rep0 := by
  have h := fun r hr => (hs.reps r hr).1
  simp only [List.forall_mem_cons] at h
  fin_cases i
  · exact h.1
  · exact h.2.1
  · exact h.2.2.1
  · exact h.2.2.2.1

/-- A copy from one of the last distances. -/
lemma ends_rep (hs : s.Inv outSize) (hroom : s.nowPos < outSize) {posState : ℕ} (i : Fin 4) :
    Ends (decodeRepMatch outSize (s.use i) posState) bs (.ok next) ↔
      ∃ len, (Token.rep i len).Valid s.window ∧ bs = lenCode len ∧
        next = s.after outSize (.rep i len) := by
  rw [ends_decodeRepMatch (rep0_use_pos hs i) (by rwa [use_nowPos])]
  simp only [Token.Valid, State.after, use_nowPos, use_state, ← window_use]
  exact Iff.rfl

/-- The decoder asks for the code of a valid token, and does what the token says. -/
theorem ends_decodeRound (hs : s.Inv outSize) (hroom : s.nowPos < outSize) (hout : outSize < 2 ^ 32) :
    Ends (decodeRound props outSize s) bs (.ok next) ↔
      ∃ t : Token, t.Valid s.window ∧ bs = t.code ∧ next = s.after outSize t := by
  rw [decodeRound, ends_getBit]
  constructor
  · rintro ⟨b, cs, rfl, h⟩
    cases b with
    | false =>
      obtain ⟨b, rfl, rfl⟩ := (ends_decodeLiteral hs).1 h
      exact ⟨.literal b, trivial, rfl, rfl⟩
    | true =>
      obtain ⟨rep, ds, rfl, hmatched⟩ := ends_getBit.1 h
      cases rep with
      | false =>
        rcases (ends_decodeMatch hroom hout).1 hmatched with
          ⟨distance, len, hvalid, rfl, rfl⟩ | ⟨len, hvalid, rfl, rfl⟩
        · exact ⟨.matched distance len, hvalid, rfl, rfl⟩
        · exact ⟨.marker len, hvalid, rfl, rfl⟩
      | true =>
        obtain ⟨g0, es, rfl, hrep⟩ := ends_getBit.1 hmatched
        cases g0 with
        | false =>
          obtain ⟨long, fs, rfl, hrep0⟩ := ends_getBit.1 hrep
          cases long with
          | false =>
            obtain ⟨hvalid, rfl, rfl⟩ := (ends_decodeShortRep hs hroom).1 hrep0
            exact ⟨.shortRep, hvalid, rfl, rfl⟩
          | true =>
            obtain ⟨len, hvalid, rfl, rfl⟩ := (ends_rep hs hroom 0).1 hrep0
            exact ⟨.rep 0 len, hvalid, rfl, rfl⟩
        | true =>
          obtain ⟨s', fs, gs, rfl, hdecode, hcopy⟩ := ends_bind.1 hrep
          obtain ⟨i, -, hcode, rfl⟩ := ends_decodeRep.1 hdecode
          obtain ⟨len, hvalid, rfl, rfl⟩ := (ends_rep hs hroom i).1 hcopy
          refine ⟨.rep i len, hvalid, ?_, rfl⟩
          rw [Token.code, hcode]
          rfl
  · rintro ⟨t, hvalid, rfl, rfl⟩
    cases t with
    | literal b => exact ⟨false, _, rfl, (ends_decodeLiteral hs).2 ⟨b, rfl, rfl⟩⟩
    | shortRep =>
      refine ⟨true, _, rfl, ends_getBit.2 ⟨true, _, rfl, ends_getBit.2 ⟨false, _, rfl,
        ends_getBit.2 ⟨false, _, rfl, ?_⟩⟩⟩⟩
      exact (ends_decodeShortRep hs hroom).2 ⟨hvalid, rfl, rfl⟩
    | matched distance len =>
      refine ⟨true, _, rfl, ends_getBit.2 ⟨false, _, rfl, ?_⟩⟩
      exact (ends_decodeMatch hroom hout).2 (.inl ⟨distance, len, hvalid, rfl, rfl⟩)
    | marker len =>
      refine ⟨true, _, rfl, ends_getBit.2 ⟨false, _, rfl, ?_⟩⟩
      exact (ends_decodeMatch hroom hout).2 (.inr ⟨len, hvalid, rfl, rfl⟩)
    | rep i len =>
      have hcopy := fun n => (@ends_rep _ _ _ _ hs hroom n i).2 ⟨len, hvalid, rfl, rfl⟩
      refine ⟨true, _, rfl, ends_getBit.2 ⟨true, _, rfl, ?_⟩⟩
      by_cases hi : i = 0
      · subst hi
        exact ends_getBit.2 ⟨false, _, rfl, ends_getBit.2 ⟨true, _, rfl, hcopy _⟩⟩
      · obtain ⟨cs, hcode⟩ : ∃ cs, repCode i = true :: cs := by
          fin_cases i
          · exact absurd rfl hi
          · exact ⟨_, rfl⟩
          · exact ⟨_, rfl⟩
          · exact ⟨_, rfl⟩
        rw [hcode]
        refine ends_getBit.2 ⟨true, _, rfl, ends_bind.2 ⟨s.use i, cs, lenCode len, rfl, ?_, hcopy _⟩⟩
        exact ends_decodeRep.2 ⟨i, hi, hcode, rfl⟩

/-! ### The invariant -/

/-- What has been written is a distance that may be used, and the distances from before may be. -/
lemma inv_of_grown {s' : State} (hstate : s'.state < kNumStates) (hle : s'.nowPos ≤ outSize)
    (hlt : s.nowPos < s'.nowPos)
    (hreps : ∀ r ∈ [s'.rep0, s'.rep1, s'.rep2, s'.rep3], 0 < r ∧ r ≤ max 1 s.nowPos) :
    s'.Inv outSize := by
  refine ⟨hstate, hle, fun _ => Nat.zero_lt_of_lt hlt, fun r hr => ⟨(hreps r hr).1, ?_⟩⟩
  have := (hreps r hr).2
  omega

lemma copy_nowPos {len : ℕ} (hpos : 0 < s.rep0) (hle : s.rep0 ≤ s.nowPos) :
    (s.copy outSize len).nowPos = min outSize (s.nowPos + len) := by
  rw [State.nowPos, State.copy, List.length_take, Lz77.length_copy hpos hle, State.nowPos]

lemma matchState_lt (state : ℕ) : matchState state < kNumStates := by
  rw [matchState]
  split_ifs <;> decide

lemma repState_lt (state : ℕ) : repState state < kNumStates := by
  rw [repState]
  split_ifs <;> decide

lemma shortRepState_lt (state : ℕ) : shortRepState state < kNumStates := by
  rw [shortRepState]
  split_ifs <;> decide

lemma literalState_lt {state : ℕ} (h : state < kNumStates) : literalState state < kNumStates := by
  simp only [kNumStates] at h ⊢
  rw [literalState]
  split_ifs <;> omega

lemma mem_reps_use {r : ℕ} (i : Fin 4)
    (h : r ∈ [(s.use i).rep0, (s.use i).rep1, (s.use i).rep2, (s.use i).rep3]) :
    r ∈ [s.rep0, s.rep1, s.rep2, s.rep3] := by
  fin_cases i <;> simp only [List.mem_cons, List.not_mem_nil, or_false, State.use] at h ⊢ <;> omega

/-- A round keeps the invariant, and writes. -/
lemma State.Inv.after (hs : s.Inv outSize) (hroom : s.nowPos < outSize) {t : Token} (ht : t.Valid s.window)
    {s' : State} (h : s.after outSize t = .more s') : s'.Inv outSize ∧ s.nowPos < s'.nowPos := by
  have hmin : ∀ len, kMatchMinLen ≤ len → 0 < len := fun len hlen => by
    simp only [kMatchMinLen] at hlen
    omega
  cases t with
  | literal b =>
    cases h
    have hgrown : s.nowPos < ((s.put b).goto (literalState s.state)).nowPos :=
      (Nat.lt_succ_self _).trans_eq (put_nowPos s b).symm
    refine ⟨inv_of_grown (literalState_lt hs.state_lt) ?_ hgrown hs.reps, hgrown⟩
    exact (put_nowPos s b).trans_le hroom
  | shortRep =>
    cases h
    obtain ⟨hpos, hmax⟩ := hs.reps s.rep0 List.mem_cons_self
    have hne : 0 < s.nowPos := List.length_pos_iff.2 ht
    have hlen : ((s.copy outSize 1).goto (shortRepState s.state)).nowPos = min outSize (s.nowPos + 1) :=
      copy_nowPos hpos (by omega)
    refine ⟨inv_of_grown (shortRepState_lt _) (by omega) (by omega) hs.reps, by omega⟩
  | rep i len =>
    cases h
    obtain ⟨hle, hlen2, -⟩ := ht
    rw [← window_use] at hle
    have hle' : (s.use i).rep0 ≤ (s.use i).nowPos := hle.trans_eq (use_nowPos i).symm
    have hlen : (((s.use i).goto (repState s.state)).copy outSize len).nowPos =
        min outSize ((s.use i).nowPos + len) := copy_nowPos (rep0_use_pos hs i) hle'
    rw [use_nowPos] at hlen
    have := hmin len hlen2
    have hgrown : s.nowPos < (((s.use i).goto (repState s.state)).copy outSize len).nowPos := by omega
    refine ⟨inv_of_grown (repState_lt _) (by omega) hgrown fun r hr => ?_, hgrown⟩
    exact hs.reps r (mem_reps_use i hr)
  | matched distance len =>
    cases h
    obtain ⟨hpos, hle, hlen2, -⟩ := ht
    have hlen : (((s.shift distance).goto (matchState s.state)).copy outSize len).nowPos =
        min outSize (s.nowPos + len) := copy_nowPos hpos hle
    have := hmin len hlen2
    have hle' : distance ≤ s.nowPos := hle
    have hgrown : s.nowPos < (((s.shift distance).goto (matchState s.state)).copy outSize len).nowPos := by
      omega
    have h4 := hs.reps
    simp only [List.forall_mem_cons] at h4
    refine ⟨inv_of_grown (matchState_lt _) (by omega) hgrown ?_, hgrown⟩
    simp only [List.forall_mem_cons]
    exact ⟨⟨hpos, by change distance ≤ _; omega⟩, h4.1, h4.2.1, h4.2.2.1, List.forall_mem_nil _⟩
  | marker len => cases h

/-! ### All rounds -/

/-- The loop of `LzmaDecode` as a program of its own. -/
def decodeRounds (props : CLzmaProperties) (outSize : ℕ) : (rounds : ℕ) → State → Program State
  | 0, s => if s.nowPos < outSize then fail .fault else return s
  | rounds + 1, s =>
    if s.nowPos < outSize then decodeRound props outSize s >>= fun
      | .finished s => return s
      | .more s => decodeRounds props outSize rounds s
    else return s

lemma decodeRounds_full {rounds : ℕ} (h : ¬ s.nowPos < outSize) :
    decodeRounds props outSize rounds s = done s := by
  cases rounds with
  | zero => exact if_neg h
  | succ rounds => exact if_neg h

lemma expand_full {ts : List Token} {out : List UInt8} (h : ¬ s.nowPos < outSize) :
    expand outSize s.window ts = some out ↔ ts = [] ∧ s.out = out := by
  have hfull : ¬ s.window.out.length < outSize := h
  cases ts with
  | nil =>
    rw [expand, if_neg hfull, Option.some_inj]
    exact ⟨fun heq => ⟨rfl, heq⟩, fun heq => heq.2⟩
  | cons t ts =>
    rw [expand_cons_full hfull t]
    constructor
    · intro heq
      cases heq
    · rintro ⟨hnil, -⟩
      cases hnil

lemma not_expand_nil {out : List UInt8} (h : s.nowPos < outSize) :
    expand outSize s.window [] ≠ some out := by
  have hroom : s.window.out.length < outSize := h
  rw [expand, if_pos hroom]
  exact Option.some_ne_none out ∘ Eq.symm

/-- What follows the first token. -/
def Next.Expands (outSize : ℕ) (ts : List Token) (out : List UInt8) : Next → Prop
  | .more s => expand outSize s.window ts = some out
  | .finished s => ts = [] ∧ s.out = out

lemma expand_cons {t : Token} {ts : List Token} {out : List UInt8} (h : s.nowPos < outSize) :
    expand outSize s.window (t :: ts) = some out ↔
      t.Valid s.window ∧ (s.after outSize t).Expands outSize ts out := by
  have hroom : s.window.out.length < outSize := h
  cases hafter : s.after outSize t with
  | finished s' =>
    obtain ⟨len, rfl⟩ : ∃ len, t = .marker len := by
      cases t <;> cases hafter
      exact ⟨_, rfl⟩
    cases hafter
    rw [expand, Next.Expands]
    by_cases hvalid : (Token.marker len).Valid s.window ∧ ts = []
    · rw [if_pos ⟨hroom, hvalid⟩, Option.some_inj]
      exact ⟨fun heq => ⟨hvalid.1, hvalid.2, heq⟩, fun heq => heq.2.2⟩
    · rw [if_neg fun hc => hvalid hc.2]
      exact ⟨fun heq => absurd heq (by simp), fun heq => absurd ⟨heq.1, heq.2.1⟩ hvalid⟩
  | more s' =>
    have hmarker : ∀ len, t ≠ .marker len := by
      rintro len rfl
      cases hafter
    rw [expand_token hmarker, Next.Expands, window_after hafter]
    by_cases hvalid : t.Valid s.window
    · rw [if_pos ⟨hroom, hvalid⟩]
      exact ⟨fun heq => ⟨hvalid, heq⟩, fun heq => heq.2⟩
    · rw [if_neg fun hc => hvalid hc.2]
      exact ⟨fun heq => absurd heq (by simp), fun heq => absurd heq.1 hvalid⟩

lemma ends_full {rounds : ℕ} {out : List UInt8} (h : ¬ s.nowPos < outSize) :
    (∃ s', Ends (decodeRounds props outSize rounds s) bs (.ok s') ∧ s'.out = out) ↔
      ∃ ts : List Token, bs = ts.flatMap Token.code ∧ expand outSize s.window ts = some out := by
  rw [decodeRounds_full h]
  constructor
  · rintro ⟨s', hends, rfl⟩
    obtain ⟨rfl, rfl⟩ := ends_done.1 hends
    exact ⟨[], rfl, (expand_full h).2 ⟨rfl, rfl⟩⟩
  · rintro ⟨ts, rfl, hexpand⟩
    obtain ⟨rfl, rfl⟩ := (expand_full h).1 hexpand
    exact ⟨s, ends_done.2 ⟨rfl, rfl⟩, rfl⟩

/-- The decoder asks for the codes of tokens that expand to what it writes. By induction on the
rounds; every round is one token, and writes a byte at least. -/
theorem ends_decodeRounds {rounds : ℕ} {out : List UInt8} (hs : s.Inv outSize)
    (hrounds : outSize ≤ s.nowPos + rounds) (hout : outSize < 2 ^ 32) :
    (∃ s', Ends (decodeRounds props outSize rounds s) bs (.ok s') ∧ s'.out = out) ↔
      ∃ ts : List Token, bs = ts.flatMap Token.code ∧ expand outSize s.window ts = some out := by
  induction rounds generalizing s bs with
  | zero => exact ends_full (by omega)
  | succ rounds ih =>
    by_cases hroom : s.nowPos < outSize
    · have hmore : ∀ t s₁, t.Valid s.window → s.after outSize t = .more s₁ → ∀ bs,
          (∃ s', Ends (decodeRounds props outSize rounds s₁) bs (.ok s') ∧ s'.out = out) ↔ _ :=
        fun t s₁ ht hafter bs => by
          obtain ⟨hs₁, hgrown⟩ := hs.after hroom ht hafter
          exact ih hs₁ (by omega)
      rw [decodeRounds, if_pos hroom]
      constructor
      · rintro ⟨s', hends, hs'⟩
        obtain ⟨next, cs, ds, rfl, hround, hrest⟩ := ends_bind.1 hends
        obtain ⟨t, ht, rfl, rfl⟩ := (ends_decodeRound hs hroom hout).1 hround
        cases hafter : s.after outSize t with
        | finished s₁ =>
          rw [hafter] at hrest
          obtain ⟨rfl, rfl⟩ := ends_done.1 hrest
          refine ⟨[t], by rw [List.flatMap_singleton, List.append_nil], (expand_cons hroom).2 ⟨ht, ?_⟩⟩
          rw [hafter]
          exact ⟨rfl, hs'⟩
        | more s₁ =>
          rw [hafter] at hrest
          obtain ⟨ts, rfl, hts⟩ := (hmore t s₁ ht hafter ds).1 ⟨s', hrest, hs'⟩
          refine ⟨t :: ts, List.flatMap_cons.symm, (expand_cons hroom).2 ⟨ht, ?_⟩⟩
          rw [hafter]
          exact hts
      · rintro ⟨ts, rfl, hexpand⟩
        cases ts with
        | nil => exact absurd hexpand (not_expand_nil hroom)
        | cons t ts =>
          obtain ⟨ht, hrest⟩ := (expand_cons hroom).1 hexpand
          have hround := (@ends_decodeRound props _ _ _ _ hs hroom hout).2 ⟨t, ht, rfl, rfl⟩
          rw [List.flatMap_cons]
          cases hafter : s.after outSize t with
          | finished s₁ =>
            rw [hafter] at hrest hround
            obtain ⟨rfl, hout'⟩ := hrest
            exact ⟨s₁, ends_bind.2 ⟨_, _, _, rfl, hround, ends_done.2 ⟨rfl, rfl⟩⟩, hout'⟩
          | more s₁ =>
            rw [hafter] at hrest hround
            obtain ⟨s', hends, hs'⟩ := (hmore t s₁ ht hafter _).2 ⟨ts, rfl, hrest⟩
            exact ⟨s', ends_bind.2 ⟨_, _, _, rfl, hround, hends⟩, hs'⟩
    · exact ends_full hroom

end ApuBios.Lzma
