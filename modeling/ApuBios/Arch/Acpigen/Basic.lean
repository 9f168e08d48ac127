import Mathlib.Tactic

/-!
# Generating AML

Model of `arch/x86/boot/acpigen.c`. The generators append bytes to the output, and return how many.
The length of an object is stored once the object is complete: until then its place is on the length
stack. `ASSERT` reports what fails, and goes on, so that it leaves no trace here.
-/

namespace ApuBios.Acpigen

/-- The bytes that were emitted, and the length stack with its top first. `gencurrent` points behind
the last byte. -/
structure State where
  out : List UInt8
  lenStack : List ℕ

/-- A generator; it fails where the length stack is full, or empty. -/
abbrev Gen := StateT State Option

def ACPIGEN_LENSTACK_SIZE : ℕ := 10
def ACPIGEN_MAXLEN : ℕ := 0xfff

/-! ### Bytes and lengths -/

def acpigenGetCurrent : Gen ℕ := fun s => some (s.out.length, s)

def acpigenEmitByte (b : UInt8) : Gen ℕ := fun s => some (1, { s with out := s.out ++ [b] })

/-- Stores a byte that was emitted before. -/
def poke (p : ℕ) (b : UInt8) : Gen Unit := fun s => some ((), { s with out := s.out.set p b })

/-- `len_stack[ltop++] = gencurrent` -/
def pushCurrent : Gen Unit := fun s =>
  if s.lenStack.length < ACPIGEN_LENSTACK_SIZE then
    some ((), { s with lenStack := s.out.length :: s.lenStack })
  else none

/-- `len_stack[--ltop]` -/
def popLen : Gen ℕ := fun s => match s.lenStack with
  | [] => none
  | p :: lenStack => some (p, { s with lenStack := lenStack })

def acpigenWriteLenF : Gen ℕ := do
  pushCurrent
  let _ ← acpigenEmitByte 0
  let _ ← acpigenEmitByte 0
  return 2

def acpigenPatchLen (len : ℕ) : Gen Unit := do
  let p ← popLen
  poke p (UInt8.ofNat (0x40 ||| (len &&& 0xf)))
  poke (p + 1) (UInt8.ofNat (len >>> 4 &&& 0xff))

def acpigenEmitStream (data : List UInt8) (size : ℕ) : Gen ℕ := do
  (data.take size).forM fun b => do
    let _ ← acpigenEmitByte b
  return size

def acpigenWritePackage (nrEl : ℕ) : Gen ℕ := do
  let _ ← acpigenEmitByte 0x12
  let len ← acpigenWriteLenF
  let _ ← acpigenEmitByte (UInt8.ofNat nrEl)
  return len + 2

/-- The bytes of a 32-bit value. -/
def emitDword (data : ℕ) : Gen Unit := do
  let _ ← acpigenEmitByte (UInt8.ofNat (data &&& 0xff))
  let _ ← acpigenEmitByte (UInt8.ofNat (data >>> 8 &&& 0xff))
  let _ ← acpigenEmitByte (UInt8.ofNat (data >>> 16 &&& 0xff))
  let _ ← acpigenEmitByte (UInt8.ofNat (data >>> 24 &&& 0xff))

def acpigenWriteByte (data : ℕ) : Gen ℕ := do
  let _ ← acpigenEmitByte 0x0a
  let _ ← acpigenEmitByte (UInt8.ofNat (data &&& 0xff))
  return 2

def acpigenWriteDword (data : ℕ) : Gen ℕ := do
  let _ ← acpigenEmitByte 0x0c
  emitDword data
  return 5

def acpigenWriteQword (data : ℕ) : Gen ℕ := do
  let _ ← acpigenEmitByte 0x0e
  emitDword data
  emitDword (data >>> 32)
  return 9

/-! ### Names -/

/-- The character at an index of a string that ends with a zero byte. -/
def char (name : List UInt8) (i : ℕ) : UInt8 := name.getD i 0

/-- The loop of `acpigen_emit_simple_namestring`, with `n` characters to go. -/
def simpleNamestringLoop (name : List UInt8) : ℕ → ℕ → Gen ℕ
  | 0, _ => return 0
  | n + 1, i =>
    if char name i = 0 ∨ char name i = 0x2e then
      acpigenEmitStream [0x5f, 0x5f, 0x5f, 0x5f] (n + 1)
    else do
      let len ← acpigenEmitByte (char name i)
      let rest ← simpleNamestringLoop name n (i + 1)
      return len + rest

def acpigenEmitSimpleNamestring (name : List UInt8) : Gen ℕ := simpleNamestringLoop name 4 0

def acpigenEmitDoubleNamestring (name : List UInt8) (dotpos : ℕ) : Gen ℕ := do
  let len ← acpigenEmitByte 0x2e
  let first ← acpigenEmitSimpleNamestring name
  let second ← acpigenEmitSimpleNamestring (name.drop (dotpos + 1))
  return len + first + second

/-- The name behind the next dot. -/
def nextName (name : List UInt8) : List UInt8 := (name.dropWhile (· ≠ 0x2e)).tail

/-- The loop of `acpigen_emit_multi_namestring`: the length and the number of names. -/
def multiNamestringLoop : ℕ → List UInt8 → Gen (ℕ × ℕ)
  | _, [] => return (0, 0)
  | 0, _ :: _ => failure
  | fuel + 1, name@(_ :: _) => do
    let len ← acpigenEmitSimpleNamestring name
    let rest ← multiNamestringLoop fuel (nextName name)
    return (len + rest.1, rest.2 + 1)

def acpigenEmitMultiNamestring (name : List UInt8) : Gen ℕ := do
  let len ← acpigenEmitByte 0x2f
  let len' ← acpigenEmitByte 0
  let current ← acpigenGetCurrent
  let r ← multiNamestringLoop name.length name
  poke (current - 1) (UInt8.ofNat r.2)
  return len + len' + r.1

/-- The loop over `^`: the length, and the name behind. -/
def parentsLoop : List UInt8 → Gen (ℕ × List UInt8)
  | [] => return (0, [])
  | c :: name =>
    if c = 0x5e then do
      let len ← acpigenEmitByte 0x5e
      let rest ← parentsLoop name
      return (len + rest.1, rest.2)
    else return (0, c :: name)

/-- The loop over the rest of a name that counts its dots and finds the last one. -/
def countDotsLoop : List UInt8 → ℕ → ℕ → ℕ → ℕ × ℕ
  | [], _, dotcount, dotpos => (dotcount, dotpos)
  | c :: name, i, dotcount, dotpos =>
    if c = 0x2e then countDotsLoop name (i + 1) (dotcount + 1) i
    else countDotsLoop name (i + 1) dotcount dotpos

/-- The names behind the prefix, in the form that their number asks for. -/
def emitNames (name : List UInt8) : Gen ℕ :=
  let dots := countDotsLoop name 0 0 0
  if dots.1 = 0 then acpigenEmitSimpleNamestring name
  else if dots.1 = 1 then acpigenEmitDoubleNamestring name dots.2
  else acpigenEmitMultiNamestring name

/-- A path starts at the root, if at all, and goes to parents. -/
def emitRoot (namepath : List UInt8) : Gen (ℕ × List UInt8) :=
  if char namepath 0 = 0x5c then do
    let len ← acpigenEmitByte 0x5c
    return (len, namepath.tail)
  else return (0, namepath)

def acpigenEmitNamestring (namepath : List UInt8) : Gen ℕ := do
  let root ← emitRoot namepath
  let parents ← parentsLoop root.2
  let names ← emitNames parents.2
  return root.1 + parents.1 + names

/-- The characters of a string literal. -/
def chars (s : String) : List UInt8 := s.toList.map fun c => UInt8.ofNat c.toNat

def acpigenWriteName (name : List UInt8) : Gen ℕ := do
  let len ← acpigenEmitByte 0x08
  let rest ← acpigenEmitNamestring name
  return len + rest

def acpigenWriteNameByte (name : List UInt8) (val : ℕ) : Gen ℕ := do
  let len ← acpigenWriteName name
  let rest ← acpigenWriteByte val
  return len + rest

def acpigenWriteNameDword (name : List UInt8) (val : ℕ) : Gen ℕ := do
  let len ← acpigenWriteName name
  let rest ← acpigenWriteDword val
  return len + rest

def acpigenWriteNameQword (name : List UInt8) (val : ℕ) : Gen ℕ := do
  let len ← acpigenWriteName name
  let rest ← acpigenWriteQword val
  return len + rest

def acpigenWriteScope (name : List UInt8) : Gen ℕ := do
  let len ← acpigenEmitByte 0x10
  let len' ← acpigenWriteLenF
  let rest ← acpigenEmitNamestring name
  return len + len' + rest

/-- A hexadecimal digit as `printf` writes it. -/
def hexDigit (n : ℕ) : UInt8 := UInt8.ofNat (if n < 10 then 0x30 + n else 0x57 + n)

/-- `"\\_PR.CPU%x"` -/
def processorName (cpuindex : UInt8) : List UInt8 :=
  [0x5c, 0x5f, 0x50, 0x52, 0x2e, 0x43, 0x50, 0x55] ++
    if cpuindex.toNat < 16 then [hexDigit cpuindex.toNat]
    else [hexDigit (cpuindex.toNat / 16), hexDigit (cpuindex.toNat % 16)]

def acpigenWriteProcessor (cpuindex : UInt8) (pblockAddr : ℕ) (pblockLen : UInt8) : Gen ℕ := do
  let _ ← acpigenEmitByte 0x5b
  let _ ← acpigenEmitByte 0x83
  let len ← acpigenWriteLenF
  let name ← acpigenEmitNamestring (processorName cpuindex)
  let _ ← acpigenEmitByte cpuindex
  emitDword pblockAddr
  let _ ← acpigenEmitByte pblockLen
  return 6 + 2 + (len + name)

end ApuBios.Acpigen
