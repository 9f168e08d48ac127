import ApuBios.Library.CString
import ApuBios.Library.Orbit
import ApuBios.Library.Word

/-!
# Files in the flash

Model of `cbfs_get_file` in `src/lib/cbfs_core.c` on the memory-mapped media of
`src/arch/x86/lib/rom_media.c`. Numbers in the flash are big endian, and all arithmetic is on 32
bits. The flash is part of the memory, whose addresses wrap at 4 GiB.
-/

namespace ApuBios.Cbfs

def CBFS_HEADER_MAGIC : ℕ := 0x4F524243
def CBFS_HEADER_INVALID_ADDRESS : ℕ := 0xffffffff
def CBFS_MEDIA_INVALID_MAP_ADDRESS : ℕ := 0xffffffff

/-- `CBFS_FILE_MAGIC`: "LARCHIVE" -/
def CBFS_FILE_MAGIC : List UInt8 := [0x4c, 0x41, 0x52, 0x43, 0x48, 0x49, 0x56, 0x45]

/-- `sizeof(struct cbfs_file)` -/
def sizeofCbfsFile : ℕ := 24

/-- The memory as pointers of 32 bits see it. -/
def flat (m : Mem) : Mem := fun a => m (a % 2 ^ 32)

/-- `ntohl` and `htonl` -/
def ntohl (x : ℕ) : ℕ :=
  x % 2 ^ 8 * 2 ^ 24 + x / 2 ^ 8 % 2 ^ 8 * 2 ^ 16 + x / 2 ^ 16 % 2 ^ 8 * 2 ^ 8 + x / 2 ^ 24 % 2 ^ 8

/-- A field of 32 bits in host order. -/
def be32 (m : Mem) (p : ℕ) : ℕ := ntohl (m.readLE p 4)

lemma ntohl_lt (x : ℕ) : ntohl x < 2 ^ 32 := by
  rw [ntohl]
  omega

/-! ### The media -/

/-- `x86_rom_map`; `context` is `media->context`. -/
def x86RomMap (context offset : ℕ) : ℕ :=
  if 0xf0000000 < offset then offset else Word.add 32 (Word.sub 32 0 context) offset

/-- The `context` that `init_x86rom_cbfs_media` sets; `romSize` is `CONFIG_ROM_SIZE`. -/
def initX86romCbfsMedia (m : Mem) (romSize : ℕ) : ℕ :=
  let header := m.readLE 0xfffffffc 4
  if CBFS_HEADER_MAGIC ≠ be32 m header then romSize else be32 m (header + 8)

/-- `cbfs_get_header`; `none` is `CBFS_HEADER_INVALID_ADDRESS`. -/
def cbfsGetHeader (m : Mem) (context : ℕ) : Option ℕ :=
  let header := x86RomMap context (m.readLE 0xfffffffc 4)
  if header = CBFS_MEDIA_INVALID_MAP_ADDRESS then none
  else if CBFS_HEADER_MAGIC ≠ be32 m header then none
  else some header

/-! ### The search -/

/-- What one round of the loop comes to. -/
inductive Round where
  /-- `cbfs_get_file` returns this pointer; 0 is `NULL`. -/
  | stop (p : ℕ)
  | divisionByZero
  | goto (offset : ℕ)
  deriving DecidableEq, Repr

/-- The fields of the master header that the loop uses, and the media. -/
structure Search where
  context : ℕ
  align : ℕ
  romsize : ℕ
  deriving DecidableEq, Repr

/-- `if (offset % align) offset += align - (offset % align)` -/
def alignOffset (align offset : ℕ) : ℕ :=
  if offset % align ≠ 0 then Word.add 32 offset (align - offset % align) else offset

/-- One round for the record at `offset`. -/
def cbfsRound (m : Mem) (name : CString) (s : Search) (offset : ℕ) : Round :=
  if s.romsize ≤ offset then .stop 0
  else
    let file := x86RomMap s.context offset
    if m.slice file 8 ≠ CBFS_FILE_MAGIC then
      if s.align = 0 then .divisionByZero
      else
        let newAlign :=
          if offset % s.align ≠ 0 then Word.add 32 s.align (s.align - offset % s.align)
          else s.align
        .goto (Word.add 32 offset newAlign)
    else
      let fileName := x86RomMap s.context (Word.add 32 offset sizeofCbfsFile)
      if fileName ≠ CBFS_MEDIA_INVALID_MAP_ADDRESS ∧ m.strcmp fileName name.1 = 0 then
        -- the same `offset` is mapped again
        .stop file
      else if s.align = 0 then .divisionByZero
      else
        .goto (alignOffset s.align
          (Word.add 32 offset (Word.add 32 (be32 m (file + 8)) (be32 m (file + 20)))))

/-- How the search ends. -/
inductive Outcome where
  | returned (p : ℕ)
  | divisionByZero
  deriving DecidableEq, Repr

/-- The loop, for at most `fuel` rounds. -/
def cbfsLoop (m : Mem) (name : CString) (s : Search) : ℕ → ℕ → Option Outcome
  | 0, _ => none
  | fuel + 1, offset =>
    match cbfsRound m name s offset with
    | .stop p => some (.returned p)
    | .divisionByZero => some .divisionByZero
    | .goto offset => cbfsLoop m name s fuel offset

/-- The search that a master header describes. -/
def searchOf (m : Mem) (context header : ℕ) : Search where
  context := context
  align := be32 m (header + 16)
  romsize := Word.sub 32 (be32 m (header + 8)) (be32 m (header + 12))

/-- The offset of the first record. -/
def firstOffset (m : Mem) (header : ℕ) : ℕ := be32 m (header + 20)

/-- `cbfs_get_file` on the default media. -/
def cbfsGetFile (memory : Mem) (romSize fuel : ℕ) (name : CString) : Option Outcome :=
  let m := flat memory
  let context := initX86romCbfsMedia m romSize
  match cbfsGetHeader m context with
  | none => some (.returned 0)
  | some header => cbfsLoop m name (searchOf m context header) fuel (firstOffset m header)

/-- `CBFS_SUBHEADER` -/
def cbfsSubheader (m : Mem) (file : ℕ) : ℕ := Word.add 32 file (be32 m (file + 20))

end ApuBios.Cbfs
