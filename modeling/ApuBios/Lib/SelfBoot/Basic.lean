import ApuBios.Lib.Bootmem
import ApuBios.Library.CString

/-!
# Loading the payload

Model of `src/lib/selfboot.c`: the segments of a payload are put in a list, checked against the
memory map, and loaded one after the other. A segment that would overwrite coreboot is loaded to
the bounce buffer instead, and `jmp_payload` of `src/arch/x86/boot/boot.c` copies the buffer over
coreboot before it starts the payload. The payload lies in the flash, which loading does not change,
and what a compressed segment holds is a parameter. Pointers and sizes have 32 bits.
-/

namespace ApuBios.SelfBoot

open Memrange Bootmem

def PAYLOAD_SEGMENT_CODE : UInt32 := 0x45444F43
def PAYLOAD_SEGMENT_DATA : UInt32 := 0x41544144
def PAYLOAD_SEGMENT_BSS : UInt32 := 0x20535342
def PAYLOAD_SEGMENT_PARAMS : UInt32 := 0x41524150
def PAYLOAD_SEGMENT_ENTRY : UInt32 := 0x52544E45

def CBFS_COMPRESS_NONE : ℕ := 0
def CBFS_COMPRESS_LZMA : ℕ := 1

/-- `struct cbfs_payload_segment`, with its fields in the order of the host. -/
structure CbfsPayloadSegment where
  type : UInt32
  compression : UInt32
  offset : UInt32
  loadAddr : UInt64
  len : UInt32
  memLen : UInt32
  deriving DecidableEq, Repr

/-- `struct segment` without its links. -/
structure Segment where
  dstaddr : ℕ
  srcaddr : ℕ
  memsz : ℕ
  filesz : ℕ
  compression : ℕ
  deriving DecidableEq, Repr

/-- Where coreboot is, from `_ram_seg` to `_eram_seg`. -/
structure Image where
  lbStart : ℕ
  lbEnd : ℕ
  lt : lbStart < lbEnd
  fits : lbEnd < 2 ^ 32

/-- What is fixed while a payload is loaded. -/
structure Env where
  image : Image
  /-- The first record of the payload in the flash. -/
  firstSegment : ℕ
  /-- The flash. -/
  rom : Mem
  /-- What `ulzma` writes for a stream; nothing stands for an error. -/
  ulzma : ℕ → List UInt8
  /-- What `malloc` leaves in the `compression` of a segment for the record behind it. -/
  garbage : CbfsPayloadSegment → ℕ

section

variable (env : Env)

/-! ### The list of segments -/

/-- The segment for a record of type CODE or DATA. -/
def newSegment (r : CbfsPayloadSegment) : Segment where
  dstaddr := r.loadAddr.toNat % 2 ^ 32
  srcaddr := Word.add 32 env.firstSegment r.offset.toNat
  memsz := r.memLen.toNat
  filesz := if r.memLen < r.len then r.memLen.toNat else r.len.toNat
  compression := r.compression.toNat

/-- The segment for a record of type BSS. -/
def newBss (r : CbfsPayloadSegment) : Segment where
  dstaddr := r.loadAddr.toNat % 2 ^ 32
  srcaddr := Word.add 32 env.firstSegment r.offset.toNat
  memsz := r.memLen.toNat
  filesz := 0
  compression := env.garbage r

/-- The position is looked for with the record behind the new segment, not with the list. -/
def insertSegment (new : Segment) (behind : CbfsPayloadSegment) (list : List Segment) :
    List Segment :=
  if list ≠ [] ∧ new.srcaddr < behind.loadAddr.toNat then new :: list else list ++ [new]

/-- What `build_self_segment_list` leaves. -/
structure Built where
  segments : List Segment
  entry : ℕ
  result : ℤ
  deriving DecidableEq, Repr

/-- The loop of `build_self_segment_list`; `none` when there is no record that ends it. -/
def buildLoop (list : List Segment) : List CbfsPayloadSegment → Option Built
  | [] => none
  | r :: rest =>
    if r.type = PAYLOAD_SEGMENT_PARAMS then buildLoop list rest
    else if r.type = PAYLOAD_SEGMENT_CODE ∨ r.type = PAYLOAD_SEGMENT_DATA then
      match rest with
      | [] => none
      | behind :: rest' =>
        buildLoop (insertSegment (newSegment env r) behind list) (behind :: rest')
    else if r.type = PAYLOAD_SEGMENT_BSS then
      match rest with
      | [] => none
      | behind :: rest' => buildLoop (insertSegment (newBss env r) behind list) (behind :: rest')
    else if r.type = PAYLOAD_SEGMENT_ENTRY then some ⟨list, r.loadAddr.toNat % 2 ^ 32, 1⟩
    else some ⟨list, 0, -1⟩

def buildSelfSegmentList (records : List CbfsPayloadSegment) : Option Built :=
  buildLoop env [] records

/-! ### Relocation -/

def overlapsCoreboot (seg : Segment) : Bool :=
  let end_ := Word.add 32 seg.dstaddr seg.memsz
  !(end_ ≤ env.image.lbStart ∨ env.image.lbEnd ≤ seg.dstaddr)

/-- The segment afterwards, and the new ones in front of it and behind it. -/
structure Relocated where
  before : Option Segment
  seg : Segment
  after : Option Segment
  deriving DecidableEq, Repr

/-- The new segment at the beginning, and what is left. -/
def splitEarly (seg : Segment) : Segment × Segment :=
  let len := Word.sub 32 env.image.lbStart seg.dstaddr
  ({ seg with
      memsz := len
      filesz := if len < seg.filesz then len else seg.filesz },
    { seg with
      memsz := Word.sub 32 seg.memsz len
      dstaddr := Word.add 32 seg.dstaddr len
      srcaddr := Word.add 32 seg.srcaddr len
      filesz := if len < seg.filesz then Word.sub 32 seg.filesz len else 0 })

/-- What is left, and the new segment at the end. -/
def splitLate (seg : Segment) : Segment × Segment :=
  let len := Word.sub 32 env.image.lbEnd seg.dstaddr
  ({ seg with
      memsz := len
      filesz := if len < seg.filesz then len else seg.filesz },
    { seg with
      memsz := Word.sub 32 seg.memsz len
      dstaddr := Word.add 32 seg.dstaddr len
      srcaddr := Word.add 32 seg.srcaddr len
      filesz := if len < seg.filesz then Word.sub 32 seg.filesz len else 0 })

/-- The result of `relocate_segment` is whether there is a segment in front. -/
def relocateSegment (buffer : ℕ) (seg : Segment) : Relocated :=
  if overlapsCoreboot env seg = false then ⟨none, seg, none⟩
  else
    let start := seg.dstaddr
    let end_ := Word.add 32 start seg.memsz
    let early : Option Segment × Segment :=
      if seg.compression = CBFS_COMPRESS_NONE ∧ start < env.image.lbStart then
        (some (splitEarly env seg).1, (splitEarly env seg).2)
      else (none, seg)
    let seg := early.2
    let late : Segment × Option Segment :=
      if seg.compression = CBFS_COMPRESS_NONE ∧ env.image.lbEnd < end_ then
        ((splitLate env seg).1, some (splitLate env seg).2)
      else (seg, none)
    let seg := late.1
    ⟨early.1,
      { seg with
        dstaddr := Word.add 32 buffer (Word.sub 32 seg.dstaddr env.image.lbStart) },
      late.2⟩

/-! ### Loading -/

/-- What is outside of the area that shadows coreboot is moved to where it belongs. -/
def moveAround (m : Mem) (buffer dest end_ : ℕ) : Mem :=
  let lbSize := env.image.lbEnd - env.image.lbStart
  if buffer < end_ then
    let m :=
      if dest < buffer then
        let amount := Word.sub 32 buffer dest
        m.memcpy (Word.sub 32 env.image.lbStart amount) dest amount
      else m
    let from_ := Word.add 32 buffer lbSize
    if from_ < end_ then m.memcpy env.image.lbEnd from_ (Word.sub 32 end_ from_) else m
  else m

/-- The part of the loop behind `relocate_segment`; `none` goes on with the next segment. -/
def loadSegment (m : Mem) (buffer : ℕ) (seg : Segment) : Option ℤ × Mem :=
  let dest := seg.dstaddr
  if seg.filesz = 0 then (none, m)
  else
    let copied : Option (ℕ × Mem) :=
      if seg.compression = CBFS_COMPRESS_LZMA then
        let bytes := env.ulzma seg.srcaddr
        some (bytes.length, m.writeBytes dest bytes)
      else if seg.compression = CBFS_COMPRESS_NONE then
        some (seg.filesz, m.writeBytes dest (env.rom.slice seg.srcaddr seg.filesz))
      else none
    match copied with
    | none => (some (-1), m)
    | some (len, m) =>
      if len = 0 then (some 0, m)
      else
        let end_ := Word.add 32 dest seg.memsz
        let middle := Word.add 32 dest len
        let m := if middle < end_ then m.memset middle 0 (end_ - middle) else m
        (none, moveAround env m buffer dest end_)

/-- The loop that loads the segments, for at most `fuel` rounds. -/
def loadLoop (buffer : ℕ) : ℕ → Mem → List Segment → Option (ℤ × Mem)
  | _, m, [] => some (1, m)
  | 0, _, _ :: _ => none
  | fuel + 1, m, seg :: rest =>
    let r := relocateSegment env buffer seg
    let rest := r.after.toList ++ rest
    match r.before with
    | some new => loadLoop buffer fuel m (new :: r.seg :: rest)
    | none =>
      match loadSegment env m buffer r.seg with
      | (some result, m) => some (result, m)
      | (none, m) => loadLoop buffer fuel m rest

/-! ### Checks -/

def oneMeg : ℕ := 2 ^ 20

/-- The check of a segment in the first loop of `load_self_segments`. -/
def Allowed (bootmem : Memranges) (seg : Segment) : Prop :=
  bootmemRegionTargetsUsableRam bootmem seg.dstaddr seg.memsz = true ∨
    (seg.dstaddr < oneMeg ∧ Word.add 32 seg.dstaddr seg.memsz ≤ oneMeg)

instance (bootmem : Memranges) (seg : Segment) : Decidable (Allowed bootmem seg) :=
  inferInstanceAs (Decidable (_ ∨ _))

/-- The second loop: the memory map, and the end of what overlaps coreboot. -/
def reserveLoop (bootmem : Memranges) (bounceHigh : ℕ) : List Segment → Memranges × ℕ
  | [] => (bootmem, bounceHigh)
  | seg :: rest =>
    let bootmem := bootmemAddRange bootmem seg.dstaddr seg.memsz LB_MEM_UNUSABLE
    let end_ := Word.add 32 seg.dstaddr seg.memsz
    let bounceHigh :=
      if overlapsCoreboot env seg = true ∧ bounceHigh < end_ then end_ else bounceHigh
    reserveLoop bootmem bounceHigh rest

/-- `bounce_buffer` after `get_bounce_buffer` -/
def getBounceBuffer (bootmem : Memranges) (reqSize : ℕ) : ℕ :=
  (bootmemAllocateBuffer bootmem
    (Word.add 32 reqSize (env.image.lbEnd - env.image.lbStart))).2

/-- The bounce buffer for the segments. -/
def bounceBuffer (bootmem : Memranges) (segments : List Segment) : ℕ :=
  let reserved := reserveLoop env bootmem env.image.lbEnd segments
  getBounceBuffer env reserved.1 (Word.sub 32 reserved.2 env.image.lbStart)

def loadSelfSegments (bootmem : Memranges) (fuel : ℕ) (m : Mem) (segments : List Segment) :
    Option (ℤ × Mem) :=
  if ∃ seg ∈ segments, ¬Allowed bootmem seg then some (0, m)
  else
    let buffer := bounceBuffer env bootmem segments
    if buffer = 0 then some (0, m) else loadLoop env buffer fuel m segments

/-- The pointer that `selfload` returns, 0 being `NULL`, and the memory. -/
def selfload (bootmem : Memranges) (fuel : ℕ) (m : Mem) (records : List CbfsPayloadSegment) :
    Option (ℕ × Mem) :=
  (buildSelfSegmentList env records).bind fun built =>
    if built.result = 0 then some (0, m)
    else
      (loadSelfSegments env bootmem fuel m built.segments).map fun (result, m) =>
        if result = 0 then (0, m) else (built.entry, m)

/-! ### Starting the payload -/

/-- `rep movsl`, which copies `count` long words in ascending order. -/
def movsl (m : Mem) (dst src : ℕ) : (count : ℕ) → Mem
  | 0 => m
  | count + 1 => movsl (m.writeBytes dst (m.slice src 4)) (dst + 4) (src + 4) count

/-- `jmp_payload` up to the call of the payload: coreboot is copied behind its place in the bounce
buffer, and the buffer over coreboot. -/
def jmpPayload (m : Mem) (buffer : ℕ) : Mem :=
  let lbSize := env.image.lbEnd - env.image.lbStart
  let m := movsl m (Word.add 32 buffer lbSize) env.image.lbStart (lbSize / 4)
  movsl m env.image.lbStart buffer (lbSize / 4)

end

end ApuBios.SelfBoot
