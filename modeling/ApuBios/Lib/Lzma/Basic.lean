import ApuBios.Library.Memory
import ApuBios.Library.RangeCoder
import ApuBios.Library.Word

/-!
# The LZMA decoder

Model of `src/lib/lzmadecode.c` and of `ulzma` in `src/lib/lzma.c`. The body of `LzmaDecode` is a
program that asks for bits, and the range decoder answers with the bytes of its reader. The output
does not overlap the input.
-/

namespace ApuBios.Lzma

open DecisionTree

/-- `LZMA_RESULT_DATA_ERROR`, or what the C code has no result for: an access outside the input, the
output or the table of probabilities, or a loop that goes on longer than it may. -/
inductive Error where
  | dataError
  | fault
  deriving DecidableEq, Repr

/-! ### The reader -/

/-- The bytes that may be read. -/
abbrev Input := ℕ → Option UInt8

/-- `Buffer`, `BufferLim`, `look_ahead_ptr` and `look_ahead.raw` -/
structure Reader where
  buffer : ℕ
  bufferLim : ℕ
  lookAheadPtr : ℕ
  raw : ℕ → UInt8

section

variable (input : Input)

/-- `*Buffer` -/
def fetch (a : ℕ) : Except Error UInt8 :=
  match input a with
  | some b => .ok b
  | none => .error .fault

/-- `*(UInt32 *)Buffer` -/
def fetchDword (a : ℕ) : Except Error (ℕ → UInt8) :=
  if ∀ i < 4, (input (a + i)).isSome then .ok fun i => (input (a + i)).getD 0 else .error .fault

/-- `RC_READ_BYTE` -/
def rcReadByte (r : Reader) : Except Error (UInt8 × Reader) :=
  if r.lookAheadPtr < 4 then
    .ok (r.raw r.lookAheadPtr, { r with lookAheadPtr := r.lookAheadPtr + 1 })
  else if r.buffer % 4 ≠ 0 ∨ Word.sub 32 r.bufferLim r.buffer < 4 then do
    let b ← fetch input r.buffer
    return (b, { r with buffer := Word.add 32 r.buffer 1 })
  else do
    let raw ← fetchDword input r.buffer
    return (raw 0, { r with raw := raw, buffer := Word.add 32 r.buffer 4, lookAheadPtr := 1 })

/-- `RC_TEST; RC_READ_BYTE` -/
def rcNextByte (r : Reader) : Except Error (UInt8 × Reader) :=
  if r.buffer = r.bufferLim then .error .dataError else rcReadByte input r

/-! ### The range decoder -/

def kNumTopBits : ℕ := 24
def kTopValue : ℕ := 1 <<< kNumTopBits
def kNumBitModelTotalBits : ℕ := 11
def kBitModelTotal : ℕ := 1 <<< kNumBitModelTotalBits
def kNumMoveBits : ℕ := 5

/-- The probabilities, `Range`, `Code` and the reader. -/
abbrev RangeDecoder := RangeCoder.State (List ℕ) Reader

/-- `(Code << 8) | RC_READ_BYTE` -/
def shiftCode (code : ℕ) (b : UInt8) : ℕ := code <<< 8 % 2 ^ 32 ||| b.toNat

/-- `RC_NORMALIZE` -/
def rcNormalize (d : RangeDecoder) : Except Error RangeDecoder :=
  if d.range < kTopValue then do
    let (b, reader) ← rcNextByte input d.reader
    return { d with range := d.range <<< 8 % 2 ^ 32, code := shiftCode d.code b, reader := reader }
  else .ok d

/-- `IfBit0(p)` with `UpdateBit0(p)` or `UpdateBit1(p)` -/
def rcGetBit (d : RangeDecoder) (p : ℕ) : Except Error (Bool × RangeDecoder) :=
  match d.model[p]? with
  | none => .error .fault
  | some prob => do
    let d ← rcNormalize input d
    let bound := (d.range >>> kNumBitModelTotalBits * prob) % 2 ^ 32
    if d.code < bound then
      return (false, { d with
        model := d.model.set p (prob + (kBitModelTotal - prob) >>> kNumMoveBits)
        range := bound })
    else
      return (true, { d with
        model := d.model.set p (prob - prob >>> kNumMoveBits)
        range := d.range - bound
        code := d.code - bound })

/-- A round of the loop for the direct bits. -/
def rcDirectBit (d : RangeDecoder) : Except Error (Bool × RangeDecoder) := do
  let d ← rcNormalize input d
  let range := d.range >>> 1
  if range ≤ d.code then return (true, { d with range := range, code := d.code - range })
  else return (false, { d with range := range })

/-- The bits that the decoder asks for. -/
inductive Question where
  | prob (p : ℕ)
  | direct
  deriving DecidableEq, Repr

def rcAnswer (d : RangeDecoder) : Question → Except Error (Bool × RangeDecoder)
  | .prob p => rcGetBit input d p
  | .direct => rcDirectBit input d

/-- The loop of `RC_INIT2` -/
def rcInitLoop : ℕ → ℕ × Reader → Except Error (ℕ × Reader)
  | 0, s => .ok s
  | i + 1, (code, r) => do
    let (b, r) ← rcNextByte input r
    rcInitLoop i (shiftCode code b, r)

/-- `RC_INIT` -/
def rcInit (probs : List ℕ) (inStream inSize : ℕ) : Except Error RangeDecoder := do
  let (code, reader) ← rcInitLoop input 5 (0, ⟨inStream, Word.add 32 inStream inSize, 4, fun _ => 0⟩)
  return ⟨probs, 0xFFFFFFFF, code, reader⟩

end

/-! ### The table of probabilities -/

def kNumPosBitsMax : ℕ := 4
def kNumPosStatesMax : ℕ := 1 <<< kNumPosBitsMax

def kLenNumLowBits : ℕ := 3
def kLenNumLowSymbols : ℕ := 1 <<< kLenNumLowBits
def kLenNumMidBits : ℕ := 3
def kLenNumMidSymbols : ℕ := 1 <<< kLenNumMidBits
def kLenNumHighBits : ℕ := 8
def kLenNumHighSymbols : ℕ := 1 <<< kLenNumHighBits

def lenChoice : ℕ := 0
def lenChoice2 : ℕ := lenChoice + 1
def lenLow : ℕ := lenChoice2 + 1
def lenMid : ℕ := lenLow + kNumPosStatesMax <<< kLenNumLowBits
def lenHigh : ℕ := lenMid + kNumPosStatesMax <<< kLenNumMidBits
def kNumLenProbs : ℕ := lenHigh + kLenNumHighSymbols

def kNumStates : ℕ := 12
def kNumLitStates : ℕ := 7

def kStartPosModelIndex : ℕ := 4
def kEndPosModelIndex : ℕ := 14
def kNumFullDistances : ℕ := 1 <<< (kEndPosModelIndex >>> 1)

def kNumPosSlotBits : ℕ := 6
def kNumLenToPosStates : ℕ := 4

def kNumAlignBits : ℕ := 4
def kAlignTableSize : ℕ := 1 <<< kNumAlignBits

def kMatchMinLen : ℕ := 2

def isMatch : ℕ := 0
def isRep : ℕ := isMatch + kNumStates <<< kNumPosBitsMax
def isRepG0 : ℕ := isRep + kNumStates
def isRepG1 : ℕ := isRepG0 + kNumStates
def isRepG2 : ℕ := isRepG1 + kNumStates
def isRep0Long : ℕ := isRepG2 + kNumStates
def posSlotProbs : ℕ := isRep0Long + kNumStates <<< kNumPosBitsMax
def specPos : ℕ := posSlotProbs + kNumLenToPosStates <<< kNumPosSlotBits
def align : ℕ := specPos + kNumFullDistances - kEndPosModelIndex
def lenCoder : ℕ := align + kAlignTableSize
def repLenCoder : ℕ := lenCoder + kNumLenProbs
def literal : ℕ := repLenCoder + kNumLenProbs

def LZMA_BASE_SIZE : ℕ := 1846
def LZMA_LIT_SIZE : ℕ := 768
def LZMA_PROPERTIES_SIZE : ℕ := 5

/-- `#if Literal != LZMA_BASE_SIZE` -/
lemma literal_eq : literal = LZMA_BASE_SIZE := by decide

structure CLzmaProperties where
  lc : ℕ
  lp : ℕ
  pb : ℕ
  deriving DecidableEq, Repr

/-- `LzmaGetNumProbs` -/
def lzmaGetNumProbs (props : CLzmaProperties) : ℕ :=
  LZMA_BASE_SIZE + LZMA_LIT_SIZE <<< (props.lc + props.lp)

/-- `LzmaDecodeProperties`; the two loops divide. -/
def lzmaDecodeProperties (propsData : List UInt8) : Option CLzmaProperties :=
  if propsData.length < LZMA_PROPERTIES_SIZE then none
  else
    let prop0 := (propsData.headD 0).toNat
    if 9 * 5 * 5 ≤ prop0 then none
    else some ⟨prop0 % (9 * 5) % 9, prop0 % (9 * 5) / 9, prop0 / (9 * 5)⟩

/-! ### Symbols -/

abbrev Program := DecisionTree Error Question

def getBit (p : ℕ) : Program Bool := query (.prob p)

def directBit : Program Bool := query .direct

/-- The loop of `RangeDecoderBitTreeDecode`, with `i` rounds left. -/
def bitTreeLoop (probs : ℕ) : (i res : ℕ) → Program ℕ
  | 0, res => return res
  | i + 1, res => do
    let bit ← getBit (probs + res)
    bitTreeLoop probs i (2 * res + bit.toNat)

def rangeDecoderBitTreeDecode (probs numLevels : ℕ) : Program ℕ := do
  let res ← bitTreeLoop probs numLevels 1
  return res - 1 <<< numLevels

/-- The loop for a literal in the place of `matchByte`, until a bit is not that of `matchByte`. -/
def matchedLoop (prob : ℕ) : (rounds matchByte symbol : ℕ) → Program ℕ
  | 0, _, _ => fail .fault
  | rounds + 1, matchByte, symbol => do
    let matchByte := matchByte <<< 1
    let bit := matchByte &&& 0x100
    let b ← getBit (prob + 0x100 + bit + symbol)
    let symbol := 2 * symbol + b.toNat
    if b = decide (bit ≠ 0) ∧ symbol < 0x100 then matchedLoop prob rounds matchByte symbol
    else return symbol

/-- `while (symbol < 0x100)` -/
def symbolLoop (prob : ℕ) : (rounds symbol : ℕ) → Program ℕ
  | 0, symbol => if symbol < 0x100 then fail .fault else return symbol
  | rounds + 1, symbol =>
    if symbol < 0x100 then do
      let b ← getBit (prob + symbol)
      symbolLoop prob rounds (2 * symbol + b.toNat)
    else return symbol

/-- The length of a match, without `kMatchMinLen`. -/
def decodeLen (prob posState : ℕ) : Program ℕ := do
  let choice ← getBit (prob + lenChoice)
  if !choice then
    rangeDecoderBitTreeDecode (prob + lenLow + posState <<< kLenNumLowBits) kLenNumLowBits
  else
    let choice2 ← getBit (prob + lenChoice2)
    if !choice2 then
      let len ← rangeDecoderBitTreeDecode (prob + lenMid + posState <<< kLenNumMidBits) kLenNumMidBits
      return len + kLenNumLowSymbols
    else
      let len ← rangeDecoderBitTreeDecode (prob + lenHigh) kLenNumHighBits
      return len + (kLenNumLowSymbols + kLenNumMidSymbols)

/-- The loop for the direct bits, with `numDirectBits` rounds left. -/
def directLoop : (numDirectBits rep0 : ℕ) → Program ℕ
  | 0, rep0 => return rep0
  | numDirectBits + 1, rep0 => do
    let bit ← directBit
    directLoop numDirectBits (rep0 <<< 1 % 2 ^ 32 ||| bit.toNat)

/-- The loop for the low bits of a distance, least significant bit first. -/
def reverseLoop (prob : ℕ) : (numDirectBits mi i rep0 : ℕ) → Program ℕ
  | 0, _, _, rep0 => return rep0
  | numDirectBits + 1, mi, i, rep0 => do
    let bit ← getBit (prob + mi)
    reverseLoop prob numDirectBits (2 * mi + bit.toNat) (i <<< 1) (if bit then rep0 ||| i else rep0)

/-- The distance of a match after its slot, without the final `++rep0`. -/
def decodeDistanceBits (posSlot : ℕ) : Program ℕ :=
  if kStartPosModelIndex ≤ posSlot then
    let numDirectBits := posSlot >>> 1 - 1
    let rep0 := 2 ||| posSlot &&& 1
    if posSlot < kEndPosModelIndex then
      let rep0 := rep0 <<< numDirectBits % 2 ^ 32
      reverseLoop (specPos + rep0 - posSlot - 1) numDirectBits 1 1 rep0
    else do
      let rep0 ← directLoop (numDirectBits - kNumAlignBits) rep0
      reverseLoop align kNumAlignBits 1 1 (rep0 <<< kNumAlignBits % 2 ^ 32)
  else return posSlot

def decodeDistance (len : ℕ) : Program ℕ := do
  let lenState := if len < kNumLenToPosStates then len else kNumLenToPosStates - 1
  let posSlot ← rangeDecoderBitTreeDecode (posSlotProbs + lenState <<< kNumPosSlotBits) kNumPosSlotBits
  decodeDistanceBits posSlot

/-! ### The main loop -/

/-- The variables of `LzmaDecode`; `out` is what has been written to `outStream`, and `nowPos` its
length. -/
structure State where
  out : List UInt8 := []
  previousByte : UInt8 := 0
  state : ℕ := 0
  rep0 : ℕ := 1
  rep1 : ℕ := 1
  rep2 : ℕ := 1
  rep3 : ℕ := 1
  deriving DecidableEq, Repr

def State.nowPos (s : State) : ℕ := s.out.length

/-- `outStream[nowPos - rep0]` -/
def readBack (out : List UInt8) (rep0 : ℕ) : Program UInt8 :=
  if 0 < rep0 ∧ rep0 ≤ out.length then return out.getD (out.length - rep0) 0 else fail .fault

/-- `outStream[nowPos++] = previousByte` -/
def State.put (s : State) (b : UInt8) : State := { s with previousByte := b, out := s.out ++ [b] }

/-- A round of the loop ends and the next one may begin, or the end marker has been decoded. -/
inductive Next where
  | more (s : State)
  | finished (s : State)

section

variable (props : CLzmaProperties) (outSize : ℕ)

/-- `nowPos & posStateMask` -/
def posState (s : State) : ℕ := s.nowPos &&& (1 <<< props.pb - 1)

/-- The part of the table for a literal, by its position and the byte before. -/
def literalProb (s : State) : ℕ :=
  literal + LZMA_LIT_SIZE *
    ((s.nowPos &&& (1 <<< props.lp - 1)) <<< props.lc + s.previousByte.toNat >>> (8 - props.lc))

/-- The loops for the bits of a literal. -/
def decodeSymbol (s : State) : Program ℕ :=
  let prob := literalProb props s
  if kNumLitStates ≤ s.state then do
    let matchByte ← readBack s.out s.rep0
    let symbol ← matchedLoop prob 8 matchByte.toNat 1
    symbolLoop prob 8 symbol
  else symbolLoop prob 8 1

def decodeLiteral (s : State) : Program Next := do
  let symbol ← decodeSymbol props s
  return .more { s.put (UInt8.ofNat symbol) with
    state := if s.state < 4 then 0 else if s.state < 10 then s.state - 3 else s.state - 6 }

def decodeShortRep (s : State) : Program Next := do
  if s.nowPos = 0 then fail .dataError
  else
    let b ← readBack s.out s.rep0
    return .more { s.put b with state := if s.state < kNumLitStates then 9 else 11 }

/-- A distance that has been used before becomes the first. -/
def decodeRep (s : State) : Program State := do
  let g1 ← getBit (isRepG1 + s.state)
  if !g1 then return { s with rep0 := s.rep1, rep1 := s.rep0 }
  else
    let g2 ← getBit (isRepG2 + s.state)
    if !g2 then return { s with rep0 := s.rep2, rep1 := s.rep0, rep2 := s.rep1 }
    else return { s with rep0 := s.rep3, rep1 := s.rep0, rep2 := s.rep1, rep3 := s.rep2 }

/-- The loop that copies a match, until `len` is 0 or the output is full. -/
def copyLoop : (len : ℕ) → State → Program State
  | 0, s => return s
  | len + 1, s => do
    let b ← readBack s.out s.rep0
    let s := s.put b
    if len ≠ 0 ∧ s.nowPos < outSize then copyLoop len s else return s

/-- The copy after the length and the distance are known. -/
def copyMatch (len : ℕ) (s : State) : Program Next := do
  if s.nowPos < s.rep0 then fail .dataError
  else
    let s ← copyLoop outSize (len + kMatchMinLen) s
    return .more s

/-- A match with one of the last four distances. -/
def decodeRepMatch (s : State) (posState : ℕ) : Program Next := do
  let s := { s with state := if s.state < kNumLitStates then 8 else 11 }
  let len ← decodeLen repLenCoder posState
  copyMatch outSize len s

/-- A match with a distance of its own. -/
def decodeMatch (s : State) (posState : ℕ) : Program Next := do
  let s := { s with
    rep1 := s.rep0
    rep2 := s.rep1
    rep3 := s.rep2
    state := if s.state < kNumLitStates then 0 else 3 }
  let len ← decodeLen lenCoder posState
  let rep0 ← decodeDistance len
  let s := { s with state := s.state + kNumLitStates, rep0 := Word.add 32 rep0 1 }
  if s.rep0 = 0 then return .finished s else copyMatch outSize len s

/-- The body of the loop. -/
def decodeRound (s : State) : Program Next := do
  let posState := posState props s
  let matched ← getBit (isMatch + s.state <<< kNumPosBitsMax + posState)
  if !matched then decodeLiteral props s
  else
    let rep ← getBit (isRep + s.state)
    if !rep then decodeMatch outSize s posState
    else
      let g0 ← getBit (isRepG0 + s.state)
      if !g0 then
        let long ← getBit (isRep0Long + s.state <<< kNumPosBitsMax + posState)
        if !long then decodeShortRep s else decodeRepMatch outSize s posState
      else
        let s ← decodeRep s
        decodeRepMatch outSize s posState

/-- What `LzmaDecode` returns, `*inSizeProcessed`, `*outSizeProcessed` and what it has written. -/
structure Result where
  res : Except Error Unit
  inSizeProcessed : ℕ
  outSizeProcessed : ℕ
  out : List UInt8

/-- The end of `LzmaDecode` after the loop. -/
def finish (input : Input) (inStream : ℕ) (s : State) (d : RangeDecoder) : Result :=
  match rcNormalize input d with
  | .error e => ⟨.error e, 0, 0, s.out⟩
  | .ok d => ⟨.ok (), Word.sub 32 d.reader.buffer inStream, s.nowPos, s.out⟩

/-- `while(nowPos < outSize)`; as every round writes a byte, `outSize` rounds are enough. -/
def decodeLoop (input : Input) (inStream : ℕ) : (rounds : ℕ) → State → RangeDecoder → Result
  | 0, s, d => if s.nowPos < outSize then ⟨.error .fault, 0, 0, s.out⟩ else finish input inStream s d
  | rounds + 1, s, d =>
    if s.nowPos < outSize then
      match run (rcAnswer input) (decodeRound props outSize s) d with
      | .error e => ⟨.error e, 0, 0, s.out⟩
      | .ok (.finished s, d) => finish input inStream s d
      | .ok (.more s, d) => decodeLoop input inStream rounds s d
    else finish input inStream s d

/-- `LzmaDecode` -/
def lzmaDecode (input : Input) (inStream inSize : ℕ) : Result :=
  match rcInit input (List.replicate (lzmaGetNumProbs props) (kBitModelTotal >>> 1)) inStream inSize with
  | .error e => ⟨.error e, 0, 0, []⟩
  | .ok d => decodeLoop props outSize input inStream outSize {} d

end

/-! ### `ulzma` -/

/-- `sizeof(scratchpad)` -/
def sizeofScratchpad : ℕ := 15980

/-- `ulzma`, with what it has written. The size is that of the header, cut off at 32 bits. -/
def ulzma (m : Mem) (src : ℕ) : ℕ × List UInt8 :=
  let properties := (List.range LZMA_PROPERTIES_SIZE).map fun i => m (src + i)
  let outSize := m.readLE (src + LZMA_PROPERTIES_SIZE) 4
  match lzmaDecodeProperties properties with
  | none => (0, [])
  | some props =>
    if sizeofScratchpad < lzmaGetNumProbs props * 2 then (0, [])
    else
      let result := lzmaDecode props outSize (fun a => some (m a))
        (src + LZMA_PROPERTIES_SIZE + 8) 0xffffffff
      match result.res with
      | .error _ => (0, result.out)
      | .ok _ => (outSize, result.out)

end ApuBios.Lzma
