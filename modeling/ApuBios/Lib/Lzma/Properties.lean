import ApuBios.Lib.Lzma.Stream

/-!
# What `LzmaDecode` does with a stream

Any input at all is decoded or refused, without an access outside the input, the output or the table
(`lzmaDecode_safe`). What is decoded is what the tokens stand for whose codes are compressed in the
stream (`lzmaDecode_sound`), and there is such a stream for all tokens (`lzmaDecode_complete`).
-/

namespace ApuBios.Lzma

open DecisionTree RangeCoder

variable {props : CLzmaProperties} {input : Input} {inStream inSize outSize numProbs : ℕ}

/-! ### Initialization -/

/-- `Code` after `i` more bytes. -/
def codeFrom (input : Input) (inStream : ℕ) : (i code n : ℕ) → ℕ
  | 0, code, _ => code
  | i + 1, code, n => codeFrom input inStream i (shiftCode code (byteAt input inStream n)) (n + 1)

lemma rcInitLoop_spec (h : Readable input inStream inSize) {i code n : ℕ} {r : Reader}
    (hr : r.At input inStream inSize n) :
    (∃ r', rcInitLoop input i (code, r) = .ok (codeFrom input inStream i code n, r') ∧
      r'.At input inStream inSize (n + i)) ∨
    inSize < n + i + 3 ∧ rcInitLoop input i (code, r) = .error .dataError := by
  induction i generalizing code n r with
  | zero => exact .inl ⟨r, rfl, hr⟩
  | succ i ih =>
    rw [rcInitLoop]
    rcases hr.next h with ⟨-, r', hnext, hr'⟩ | ⟨hlt, hnext⟩
    · rw [hnext, codeFrom, show n + (i + 1) = n + 1 + i by omega]
      exact ih hr'
    · rw [hnext]
      exact .inr ⟨by omega, rfl⟩

/-- Before a byte is read. -/
lemma at_init (hin : inStream < 2 ^ 32) (raw : ℕ → UInt8) :
    Reader.At input inStream inSize 0 ⟨inStream, Word.add 32 inStream inSize, 4, raw⟩ :=
  ⟨(Nat.mod_eq_of_lt hin).symm, rfl, Nat.zero_le _, ⟨Nat.le_add_left 1 3, le_rfl⟩, fun _ hle hlt =>
    absurd (hle.trans_lt hlt) (lt_irrefl 4)⟩

/-- What the range decoder is between two bits. -/
structure Running (numProbs : ℕ) (input : Input) (inStream inSize : ℕ) (d : RangeDecoder) : Prop where
  fits : Fits (Model numProbs) coder d
  reader : ∃ n, d.reader.At input inStream inSize n

lemma rcInit_spec (h : Readable input inStream inSize) (hin : inStream < 2 ^ 32) {probs : List ℕ} :
    (∃ reader, rcInit input probs inStream inSize =
        .ok ⟨probs, 0xFFFFFFFF, codeFrom input inStream 5 0 0, reader⟩ ∧
      reader.At input inStream inSize 5) ∨
    inSize < 8 ∧ rcInit input probs inStream inSize = .error .dataError := by
  rw [rcInit]
  rcases @rcInitLoop_spec _ _ _ h 5 0 0 _ (at_init hin fun _ => 0) with
    ⟨r', hloop, hr'⟩ | ⟨hlt, hloop⟩
  · rw [hloop]
    exact .inl ⟨r', rfl, hr'⟩
  · rw [hloop]
    exact .inr ⟨hlt, rfl⟩

/-! ### The loop -/

lemma next_keeps (h : Readable input inStream inSize) (r : Reader)
    (hr : ∃ n, r.At input inStream inSize n) :
    (∀ b r', rcNextByte input r = .ok (b, r') → ∃ n, r'.At input inStream inSize n) ∧
      ∀ e, rcNextByte input r = .error e → e = .dataError := by
  obtain ⟨n, hr⟩ := hr
  rcases hr.next h with ⟨-, r₁, hnext, hr₁⟩ | ⟨-, hnext⟩
  · rw [hnext]
    refine ⟨fun b r' heq => ?_, fun e heq => ?_⟩
    · cases heq
      exact ⟨n + 1, hr₁⟩
    · cases heq
  · rw [hnext]
    refine ⟨fun b r' heq => ?_, fun e heq => ?_⟩
    · cases heq
    · cases heq
      rfl

lemma Running.answer (h : Readable input inStream inSize) {d : RangeDecoder}
    (hd : Running numProbs input inStream inSize d) {q : Question} (hq : InTable numProbs q) :
    (∀ b d', rcAnswer input d q = .ok (b, d') → Running numProbs input inStream inSize d') ∧
      ∀ e, rcAnswer input d q = .error e → e = .dataError := by
  rw [rcAnswer_eq hd.fits hq]
  obtain ⟨hok, herror⟩ := answer_keeps (splits numProbs) (next_keeps h) hd.fits hd.reader hq
  exact ⟨fun b d' heq => ⟨(hok b d' heq).1, (hok b d' heq).2⟩, herror⟩

section

variable {s : State} {d : RangeDecoder} {rounds : ℕ}

lemma decodeLoop_full (h : ¬ s.nowPos < outSize) :
    decodeLoop props outSize input inStream rounds s d = finish input inStream s d := by
  cases rounds with
  | zero => exact if_neg h
  | succ rounds => exact if_neg h

/-- The loop is the program of all rounds, and what is left to do after it. -/
lemma decodeLoop_of_run :
    (∀ s' d', run (rcAnswer input) (decodeRounds props outSize rounds s) d = .ok (s', d') →
      decodeLoop props outSize input inStream rounds s d = finish input inStream s' d') ∧
    ∀ e, run (rcAnswer input) (decodeRounds props outSize rounds s) d = .error e →
      (decodeLoop props outSize input inStream rounds s d).res = .error e := by
  induction rounds generalizing s d with
  | zero =>
    by_cases hroom : s.nowPos < outSize
    · rw [decodeRounds, if_pos hroom, decodeLoop, if_pos hroom]
      refine ⟨fun _ _ h => (by cases h), fun e h => ?_⟩
      cases h
      rfl
    · rw [decodeRounds_full hroom, decodeLoop_full hroom]
      refine ⟨fun s' d' h => ?_, fun _ h => by cases h⟩
      cases h
      rfl
  | succ rounds ih =>
    by_cases hroom : s.nowPos < outSize
    · rw [decodeRounds, if_pos hroom, decodeLoop, if_pos hroom, run_bind]
      cases run (rcAnswer input) (decodeRound props outSize s) d with
      | error e =>
        refine ⟨fun _ _ h => (by cases h), fun e' h => ?_⟩
        cases h
        rfl
      | ok x =>
        obtain ⟨next, d₁⟩ := x
        cases next with
        | more s₁ => exact ih
        | finished s₁ =>
          refine ⟨fun s' d' h => ?_, fun _ h => by cases h⟩
          cases h
          rfl
    · rw [decodeRounds_full hroom, decodeLoop_full hroom]
      refine ⟨fun s' d' h => ?_, fun _ h => by cases h⟩
      cases h
      rfl

lemma dataError_ne : (.error .dataError : Except Error Unit) ≠ .error .fault := nofun

/-- No more is read and written than there is room for, and the numbers say how much that is, or are
0 if the stream is refused. -/
structure Result.Safe (inSize outSize : ℕ) (r : Result) : Prop where
  noFault : r.res ≠ .error .fault
  out : r.out.length ≤ outSize
  outSize : r.outSizeProcessed = if r.res = .ok () then r.out.length else 0
  inSize : r.inSizeProcessed ≤ if r.res = .ok () then inSize else 0

lemma refused_safe {out : List UInt8} (h : out.length ≤ outSize) :
    Result.Safe inSize outSize ⟨.error .dataError, 0, 0, out⟩ :=
  ⟨dataError_ne, h, (if_neg nofun).symm, Nat.zero_le _⟩

lemma finish_safe (h : Readable input inStream inSize) (hs : s.nowPos ≤ outSize)
    (hd : Running numProbs input inStream inSize d) :
    (finish input inStream s d).Safe inSize outSize := by
  rw [finish]
  cases hnormalize : rcNormalize input d with
  | error e =>
    rw [rcNormalize_eq] at hnormalize
    obtain rfl := (normalize_keeps (next_keeps h) hd.reader).2 e hnormalize
    exact refused_safe hs
  | ok d' =>
    rw [rcNormalize_eq] at hnormalize
    obtain ⟨n, hn⟩ := (normalize_keeps (next_keeps h) hd.reader).1 d' hnormalize
    refine ⟨nofun, hs, (if_pos rfl).symm, ?_⟩
    have hfetched := hn.fetched
    have hsize := h.1
    change Word.sub 32 d'.reader.buffer inStream ≤
      if (Except.ok () : Except Error Unit) = .ok () then inSize else 0
    rw [if_pos rfl, hn.buffer, Word.sub]
    omega

/-- Whatever the stream is, the loop ends without a fault. -/
lemma decodeLoop_safe (h : Readable input inStream inSize) (hprops : props.Ok) (hs : s.Inv outSize)
    (hrounds : outSize ≤ s.nowPos + rounds) (hout : outSize < 2 ^ 32)
    (hd : Running (lzmaGetNumProbs props) input inStream inSize d) :
    (decodeLoop props outSize input inStream rounds s d).Safe inSize outSize := by
  induction rounds generalizing s d with
  | zero =>
    rw [decodeLoop_full (by omega)]
    exact finish_safe h hs.nowPos_le hd
  | succ rounds ih =>
    by_cases hroom : s.nowPos < outSize
    · rw [decodeLoop, if_pos hroom]
      have hround := safe_decodeRound_next hprops hs hroom hout
      obtain ⟨hok, herror⟩ := hround.run (fun d q hd hq => hd.answer h hq) hd
      cases hrun : run (rcAnswer input) (decodeRound props outSize s) d with
      | error e =>
        obtain rfl := herror e hrun
        exact refused_safe hs.nowPos_le
      | ok x =>
        obtain ⟨next, d₁⟩ := x
        obtain ⟨⟨t, ht, rfl⟩, hd₁⟩ := hok next d₁ hrun
        cases hafter : s.after outSize t with
        | more s₁ =>
          obtain ⟨hs₁, hgrown⟩ := hs.after hroom ht hafter
          exact ih hs₁ (by omega) hd₁
        | finished s₁ =>
          have hsame : s₁.out = s.out := by
            cases t <;> cases hafter
            rfl
          exact finish_safe h (by rw [State.nowPos, hsame]; exact hs.nowPos_le) hd₁
    · rw [decodeLoop_full hroom]
      exact finish_safe h hs.nowPos_le hd

end

lemma running_init {reader : Reader} (hr : ∃ n, reader.At input inStream inSize n) (code : ℕ) :
    Running numProbs input inStream inSize
      ⟨List.replicate numProbs (kBitModelTotal >>> 1), 0xFFFFFFFF, code, reader⟩ :=
  ⟨⟨model_init numProbs, show 2 ^ 16 ≤ 0xFFFFFFFF by decide, show 0xFFFFFFFF < 2 ^ 32 by decide⟩, hr⟩

/-- Any input is decoded or refused: nothing else is read, no more than `outSize` bytes are written,
and the accesses to the output and the table are within them. -/
theorem lzmaDecode_safe (h : Readable input inStream inSize) (hin : inStream < 2 ^ 32)
    (hprops : props.Ok) (hout : outSize < 2 ^ 32) :
    (lzmaDecode props outSize input inStream inSize).Safe inSize outSize := by
  rw [lzmaDecode]
  rcases rcInit_spec h hin with ⟨reader, hinit, hreader⟩ | ⟨-, hinit⟩
  · rw [hinit]
    exact decodeLoop_safe h hprops (inv_init outSize) (Nat.le_add_left _ _) hout
      (running_init ⟨5, hreader⟩ _)
  · rw [hinit]
    exact refused_safe (Nat.zero_le _)

/-- A stream of zeros that ends too soon. -/
theorem lzmaDecode_safe_zeros :
    (lzmaDecode ⟨3, 0, 2⟩ 1000 (fun a => if a < 20 then some 0 else none) 0 20).Safe 20 1000 :=
  lzmaDecode_safe ⟨by decide, by decide⟩ (by decide) ⟨by decide, by decide, by decide⟩ (by decide)

/-! ### Tokens in the stream -/

/-- The bits that the range decoder finds in the stream. -/
def decodedBits (props : CLzmaProperties) (outSize : ℕ) (input : Input) (inStream inSize : ℕ) :
    List Bool :=
  match rcInit input (List.replicate (lzmaGetNumProbs props) (kBitModelTotal >>> 1)) inStream inSize with
  | .error _ => []
  | .ok d => trace (rcAnswer input) (decodeRounds props outSize outSize {}) d

/-- What is decoded is what the tokens stand for whose codes are found in the stream. -/
theorem lzmaDecode_sound (hout : outSize < 2 ^ 32)
    (hres : (lzmaDecode props outSize input inStream inSize).res = .ok ()) :
    ∃ ts : List Token, decodedBits props outSize input inStream inSize = ts.flatMap Token.code ∧
      expand outSize {} ts = some (lzmaDecode props outSize input inStream inSize).out := by
  rw [lzmaDecode] at hres ⊢
  rw [decodedBits]
  cases hinit : rcInit input (List.replicate (lzmaGetNumProbs props) (kBitModelTotal >>> 1))
      inStream inSize with
  | error e =>
    rw [hinit] at hres
    cases hres
  | ok d =>
    rw [hinit] at hres
    obtain ⟨hok, herror⟩ := @decodeLoop_of_run props input inStream outSize {} d outSize
    change (decodeLoop props outSize input inStream outSize {} d).res = .ok () at hres
    change ∃ ts : List Token, trace (rcAnswer input) (decodeRounds props outSize outSize {}) d = _ ∧
      expand outSize {} ts = some (decodeLoop props outSize input inStream outSize {} d).out
    cases hrun : run (rcAnswer input) (decodeRounds props outSize outSize {}) d with
    | error e =>
      rw [herror e hrun] at hres
      cases hres
    | ok x =>
      obtain ⟨s', d'⟩ := x
      have hends := ends_of_run hrun
      have hsame : (finish input inStream s' d').out = s'.out := by
        rw [finish]
        cases rcNormalize input d' <;> rfl
      rw [hok s' d' hrun, hsame]
      exact (ends_decodeRounds (inv_init outSize) (Nat.le_add_left _ _) hout).1 ⟨s', hends, rfl⟩

/-- Zeros are the codes of literals that are 0. -/
theorem lzmaDecode_sound_zeros :
    ∃ ts : List Token, decodedBits ⟨0, 0, 0⟩ 2 (fun _ => some 0) 0 20 = ts.flatMap Token.code ∧
      expand 2 {} ts = some (lzmaDecode ⟨0, 0, 0⟩ 2 (fun _ => some 0) 0 20).out :=
  lzmaDecode_sound (by decide) (by decide +kernel)

/-! ### A stream for all tokens -/

/-- The stream is in the input, with four more bytes, which the reader may look at. -/
structure Holds (input : Input) (inStream inSize : ℕ) (stream : List UInt8) : Prop where
  readable : Readable input inStream inSize
  bytes : ∀ i (h : i < stream.length), byteAt input inStream i = stream[i]
  room : stream.length + 4 ≤ inSize

/-- The five bytes that `Code` is set from. -/
def codeBytes (code : ℕ) : List UInt8 :=
  [0, UInt8.ofNat (code / 2 ^ 24), UInt8.ofNat (code / 2 ^ 16), UInt8.ofNat (code / 2 ^ 8),
    UInt8.ofNat code]

lemma codeFrom_eq {code : ℕ} {stream : List UInt8} (hcode : code < 2 ^ 32)
    (h : Holds input inStream inSize (codeBytes code ++ stream)) :
    codeFrom input inStream 5 0 0 = code := by
  have hbyte : ∀ i (hi : i < 5), byteAt input inStream i = (codeBytes code).get ⟨i, hi⟩ := fun i hi => by
    have hlt : i < (codeBytes code).length := hi
    exact (h.bytes i (by rw [List.length_append]; omega)).trans (List.getElem_append_left hlt)
  have h0 := hbyte 0 (by decide)
  have h1 := hbyte 1 (by decide)
  have h2 := hbyte 2 (by decide)
  have h3 := hbyte 3 (by decide)
  have h4 := hbyte 4 (by decide)
  simp only [codeFrom, Nat.reduceAdd, h0, h1, h2, h3, h4, shiftCode_eq, codeBytes, List.get_eq_getElem,
    List.getElem_cons_zero, List.getElem_cons_succ, UInt8.toNat_ofNat', UInt8.toNat_zero]
  omega

/-- A list of bytes is what the reader gives next. -/
def Ahead (input : Input) (inStream inSize : ℕ) (bytes : List UInt8) (r : Reader) : Prop :=
  ∃ n, r.At input inStream inSize n ∧ n + bytes.length + 4 ≤ inSize ∧
    ∀ i (h : i < bytes.length), byteAt input inStream (n + i) = bytes[i]

lemma Ahead.next (h : Readable input inStream inSize) {e : Error} {bytes bytes' : List UInt8} {r : Reader}
    {b : UInt8} (hr : Ahead input inStream inSize bytes r) (hread : readList e bytes = .ok (b, bytes')) :
    ∃ r', rcNextByte input r = .ok (b, r') ∧ Ahead input inStream inSize bytes' r' := by
  obtain ⟨n, hn, hroom, hbytes⟩ := hr
  cases bytes with
  | nil => cases hread
  | cons b' bytes =>
    cases hread
    rw [List.length_cons] at hroom
    rcases hn.next h with ⟨-, r', hnext, hr'⟩ | ⟨hlt, -⟩
    · have hfirst : byteAt input inStream n = b := hbytes 0 (Nat.succ_pos _)
      rw [hfirst] at hnext
      refine ⟨r', hnext, n + 1, hr', by omega, fun i hi => ?_⟩
      rw [Nat.add_right_comm, Nat.add_assoc]
      exact hbytes (i + 1) (Nat.succ_lt_succ hi)
    · omega

lemma finish_ok {s : State} {d : RangeDecoder} (h : Readable input inStream inSize)
    (hd : Ahead input inStream inSize [] d.reader) :
    (finish input inStream s d).res = .ok () ∧ (finish input inStream s d).out = s.out := by
  obtain ⟨n, hn, hroom, -⟩ := hd
  rw [List.length_nil] at hroom
  rw [finish, rcNormalize]
  split_ifs with hsmall
  · rcases hn.next h with ⟨-, r', hnext, -⟩ | ⟨hlt, -⟩
    · rw [hnext]
      exact ⟨rfl, rfl⟩
    · omega
  · exact ⟨rfl, rfl⟩

/-- Wherever it lies, the stream is decoded as these tokens, and to these bytes. -/
def Encodes (props : CLzmaProperties) (outSize : ℕ) (ts : List Token) (out stream : List UInt8) : Prop :=
  ∀ input inStream inSize, inStream < 2 ^ 32 → Holds input inStream inSize stream →
    (lzmaDecode props outSize input inStream inSize).res = .ok () ∧
    (lzmaDecode props outSize input inStream inSize).out = out ∧
    decodedBits props outSize input inStream inSize = ts.flatMap Token.code

lemma exists_encodes (hprops : props.Ok) (hout : outSize < 2 ^ 32) {ts : List Token}
    {out : List UInt8} (hts : expand outSize {} ts = some out) :
    ∃ stream, Encodes props outSize ts out stream := by
  obtain ⟨s', hends, rfl⟩ := (@ends_decodeRounds props _ _ _ _ _ (inv_init outSize)
    (Nat.le_add_left outSize _) hout).2 ⟨ts, rfl, hts⟩
  have hsafe := safe_decodeRounds hprops (inv_init outSize) (Nat.le_add_left outSize _) hout
  obtain ⟨code, hcode, bytes, hrest⟩ := exists_code (e := Error.dataError)
    (splits (lzmaGetNumProbs props)) hends hsafe (model_init _) (show 2 ^ 16 ≤ 0xFFFFFFFF by decide)
    (by decide)
  obtain ⟨⟨s, hs, hlist⟩, htrace⟩ := hrest []
  refine ⟨codeBytes code ++ bytes, fun input inStream inSize hin hstream => ?_⟩
  have hread := hstream.readable
  have hroom := hstream.room
  rw [List.length_append, show (codeBytes code).length = 5 from rfl] at hroom
  rcases rcInit_spec hread hin with ⟨reader, hinit, hreader⟩ | ⟨hlt, -⟩
  · rw [codeFrom_eq (hcode.trans (by decide)) hstream] at hinit
    have hahead : Ahead input inStream inSize (bytes ++ []) reader := by
      refine ⟨5, hreader, by rw [List.append_nil]; omega, fun i hi => ?_⟩
      rw [List.length_append, List.length_nil] at hi
      have hbyte := hstream.bytes (5 + i) (by
        rw [List.length_append, show (codeBytes code).length = 5 from rfl]
        omega)
      rw [hbyte, List.getElem_append_right (Nat.le_add_right 5 i)]
      simp only [List.append_nil]
      congr 1
      exact Nat.add_sub_cancel_left 5 i
    obtain ⟨⟨d, hrun, hd⟩, hsame⟩ := run_of_reads (R := Ahead input inStream inSize)
      (fun r r' b r₁ hr hnext => hr.next hread hnext)
      (show Reads _ ⟨_, _, _, bytes ++ []⟩ ⟨_, 0xFFFFFFFF, code, reader⟩ from ⟨rfl, rfl, rfl, hahead⟩) hlist
    obtain ⟨hrun', htrace'⟩ := hsafe.run_congr (J := Running (lzmaGetNumProbs props) input inStream inSize)
      (fun d q hd hq => ⟨show rcAnswer input d q = _ from rcAnswer_eq hd.fits hq, fun b d' heq =>
        (hd.answer hread hq).1 b d' ((rcAnswer_eq hd.fits hq).trans heq)⟩)
      (running_init ⟨5, hreader⟩ code)
    have hahead' := hd.reader
    rw [hs] at hahead'
    obtain ⟨hres, hout'⟩ := finish_ok (s := s') hread hahead'
    have hloop := (@decodeLoop_of_run props _ inStream outSize _ _ _).1 s' d
      (hrun'.trans hrun)
    rw [lzmaDecode, decodedBits, hinit]
    refine ⟨(congrArg Result.res hloop).trans hres, (congrArg Result.out hloop).trans hout', ?_⟩
    exact htrace'.trans (hsame.trans htrace)
  · omega

/-- For all tokens there is a stream that is decoded to what they stand for. -/
theorem lzmaDecode_complete (hprops : props.Ok) (hout : outSize < 2 ^ 32) {ts : List Token}
    {out : List UInt8} (hts : expand outSize {} ts = some out) :
    ∃ stream : List UInt8, ∀ input inStream inSize, inStream < 2 ^ 32 →
      Holds input inStream inSize stream →
      (lzmaDecode props outSize input inStream inSize).res = .ok () ∧
      (lzmaDecode props outSize input inStream inSize).out = out ∧
      decodedBits props outSize input inStream inSize = ts.flatMap Token.code :=
  exists_encodes hprops hout hts

/-- A match that is cut off at the end of the output. -/
theorem lzmaDecode_complete_match :
    ∃ stream : List UInt8, ∀ input inStream inSize, inStream < 2 ^ 32 →
      Holds input inStream inSize stream →
      (lzmaDecode ⟨3, 0, 2⟩ 4 input inStream inSize).res = .ok () ∧
      (lzmaDecode ⟨3, 0, 2⟩ 4 input inStream inSize).out = [97, 97, 97, 97] ∧
      decodedBits ⟨3, 0, 2⟩ 4 input inStream inSize =
        [Token.literal 97, Token.matched 1 9].flatMap Token.code :=
  lzmaDecode_complete ⟨by decide, by decide, by decide⟩ (by decide) (by decide)

end ApuBios.Lzma
