import ApuBios.Library.Memory
import ApuBios.Library.Word

/-!
# ATA devices

Model of `drivers/storage/ata.c` of libpayload: how blocks of 512 bytes are read from a device whose
sectors may be larger.
-/

namespace ApuBios.Ata

/-- `read_sectors`: what it returns, and the memory with the buffer. -/
abbrev ReadSectors := (start count : ℕ) → Mem → (buf : ℕ) → ℤ × Mem

/-- `ata_dev_t`. Also what `malloc` returns, which is the content of a new buffer if there is memory
left. -/
structure AtaDev where
  sectorSize : ℕ
  sectorSizeShift : ℕ
  readSectors : Option ReadSectors
  malloc : Option Mem

/-- The loop of `ata_set_sector_size`, whose argument has 32 bits. -/
def shiftLoop : (fuel : ℕ) → (sectorSize shift : ℕ) → ℕ
  | 0, _, shift => shift
  | fuel + 1, sectorSize, shift =>
    if sectorSize >>> 1 ≠ 0 then shiftLoop fuel (sectorSize >>> 1) (shift + 1) else shift

/-- `ata_set_sector_size` -/
def ataSetSectorSize (dev : AtaDev) (sectorSize : ℕ) : ℤ × AtaDev :=
  if sectorSize = 0 ∨ sectorSize &&& (sectorSize - 1) ≠ 0 then (-1, dev)
  else (0, { dev with sectorSize := sectorSize, sectorSizeShift := shiftLoop 32 sectorSize 0 })

/-- `ata_read_unaligned` from the sector aligned blocks on, with the blocks that have been read. The
buffer for a sector lies in a memory of its own. -/
def readAligned (dev : AtaDev) (read : ReadSectors) (secBuf : Mem) (secStart blkCount blkBuf ret : ℕ)
    (mem : Mem) : ℤ × Mem :=
  let shift := dev.sectorSizeShift - 9
  let mask := (dev.sectorSize >>> 9) - 1
  -- read all sector aligned blocks
  let secCount := (blkCount &&& Word.not 32 mask) >>> shift
  let r := read secStart secCount mem blkBuf
  if r.1 < 0 then (ret, r.2)
  else
    let secRead := r.1.toNat
    let ret := ret + secRead <<< shift
    if secRead ≠ secCount then (ret, r.2)
    else
      -- calculate and read residue
      let blkResidue := blkCount &&& mask
      if blkResidue = 0 then (ret, r.2)
      else
        let secStart := secStart + secRead
        let blkBuf := blkBuf + secRead <<< dev.sectorSizeShift
        let s := read secStart 1 secBuf 0
        if s.1 ≠ 1 then (ret, r.2)
        else
          let bytes := blkResidue <<< 9
          ((ret + blkResidue : ℕ), r.2.copyFrom blkBuf s.2 0 bytes)

/-- `ata_read_unaligned`. The mask has 32 bits, also if `lba_t` has 64 bits. -/
def ataReadUnaligned (dev : AtaDev) (read : ReadSectors) (blkStart blkCount blkBuf : ℕ) (mem : Mem) :
    ℤ × Mem :=
  dev.malloc.elim (-1, mem) fun secBuf =>
    let shift := dev.sectorSizeShift - 9
    let mask := (dev.sectorSize >>> 9) - 1
    -- sector aligned start block
    let blkAligned := blkStart &&& Word.not 32 mask
    -- first sector to read from
    let secStart := blkAligned >>> shift
    -- calculate and read residue before sector aligned blocks
    let blkResidue := min (blkStart - blkAligned) blkCount
    if blkResidue ≠ 0 then
      let s := read secStart 1 secBuf 0
      if s.1 ≠ 1 then (0, mem)
      else
        let bytes := blkResidue <<< 9
        let mem := mem.copyFrom blkBuf s.2 (Word.sub 32 dev.sectorSize bytes) bytes
        let blkCount := blkCount - blkResidue
        let blkBuf := blkBuf + bytes
        if blkCount = 0 then (blkResidue, mem)
        else readAligned dev read s.2 (secStart + 1) blkCount blkBuf blkResidue mem
    else readAligned dev read secBuf secStart blkCount blkBuf 0 mem

/-- `ata_read512` -/
def ataRead512 (dev : AtaDev) (start count buf : ℕ) (mem : Mem) : ℤ × Mem :=
  dev.readSectors.elim (-1, mem) fun read =>
    if dev.sectorSize = 512 then read start count mem buf
    else if dev.sectorSize > 512 then
      -- sector size has to be a power of two
      let mask := (dev.sectorSize >>> 9) - 1
      if start &&& mask = 0 ∧ count &&& mask = 0 then
        let shift := dev.sectorSizeShift - 9
        let r := read (start >>> shift) (count >>> shift) mem buf
        if r.1 < 0 then r else (r.1.toNat <<< shift, r.2)
      else ataReadUnaligned dev read start count buf mem
    else (-1, mem)

end ApuBios.Ata

/-!
# Reading blocks of 512 bytes

A request that does not start at a sector reads the last blocks of its first sector, which are the ones
that are asked for only if the request ends with the sector or starts in the middle of it.
-/

namespace ApuBios.Ata

variable {dev : AtaDev} {disk mem secBuf : Mem} {k start count buf ret : ℕ}

/-! ### Sector sizes -/

lemma shiftLoop_two_pow {fuel shift : ℕ} (h : k ≤ fuel) : shiftLoop fuel (2 ^ k) shift = shift + k := by
  induction k generalizing fuel shift with
  | zero => cases fuel <;> rfl
  | succ k ih =>
    obtain ⟨fuel, rfl⟩ := Nat.exists_eq_succ_of_ne_zero (Nat.ne_of_gt (Nat.zero_lt_of_lt h))
    have hhalf : 2 ^ (k + 1) >>> 1 = 2 ^ k := by
      rw [Nat.shiftRight_one, Nat.pow_succ, Nat.mul_div_cancel _ (by norm_num)]
    rw [shiftLoop, hhalf, if_pos (by positivity), ih (by omega)]
    omega

/-- The sector sizes that are accepted are the powers of two, and the shift is the exponent. -/
theorem ataSetSectorSize_accepts {sectorSize : ℕ} (hlt : sectorSize < 2 ^ 32) :
    (ataSetSectorSize dev sectorSize).1 = 0 ↔
      ∃ k < 32, sectorSize = 2 ^ k ∧
        (ataSetSectorSize dev sectorSize).2 = { dev with sectorSize := 2 ^ k, sectorSizeShift := k } := by
  rw [ataSetSectorSize]
  by_cases hrefused : sectorSize = 0 ∨ sectorSize &&& (sectorSize - 1) ≠ 0
  · rw [if_pos hrefused]
    refine iff_of_false (by norm_num) ?_
    rintro ⟨k, -, rfl, -⟩
    obtain ⟨hne, hand⟩ := Nat.ne_zero_and_sub_one_eq_zero_iff_isPowerOfTwo.mpr ⟨k, rfl⟩
    exact hrefused.elim hne fun h => h hand
  · rw [if_neg hrefused]
    rw [not_or, not_not] at hrefused
    refine iff_of_true rfl ?_
    obtain ⟨k, rfl⟩ := Nat.ne_zero_and_sub_one_eq_zero_iff_isPowerOfTwo.mp hrefused
    have hk : k < 32 := (Nat.pow_lt_pow_iff_right (by norm_num)).mp hlt
    refine ⟨k, hk, rfl, ?_⟩
    simp only
    rw [shiftLoop_two_pow hk.le, Nat.zero_add]

/-! ### Devices -/

/-- Reads of sectors of `2 ^ k` bytes that all succeed. -/
def readAll (k : ℕ) (disk : Mem) : ReadSectors := fun start count mem buf =>
  (count, mem.copyFrom buf disk (start * 2 ^ k) (count * 2 ^ k))

def disc (k : ℕ) (disk : Mem) (malloc : Option Mem) : AtaDev where
  sectorSize := 2 ^ k
  sectorSizeShift := k
  readSectors := some (readAll k disk)
  malloc := malloc

/-- A number of blocks from a first one on, and a buffer for them in the address space. -/
structure Request where
  start : ℕ
  count : ℕ
  buf : ℕ
  start_lt : start < 2 ^ 64
  lt : buf + 512 * count < 2 ^ 32

/-- How many blocks there are in a sector. -/
def perSector (k : ℕ) : ℕ := 2 ^ (k - 9)

lemma perSector_pos : 0 < perSector k := by
  rw [perSector]
  positivity

lemma sector_eq (hk : 9 ≤ k) : 2 ^ k = 512 * perSector k := by
  rw [perSector, show (512 : ℕ) = 2 ^ 9 from rfl, ← pow_add, Nat.add_sub_of_le hk]

lemma mask_eq (hk : 9 ≤ k) : 2 ^ k >>> 9 - 1 = perSector k - 1 := by
  rw [Nat.shiftRight_eq_div_pow, Nat.pow_div hk (by norm_num), perSector]

lemma and_mask (x : ℕ) : x &&& (perSector k - 1) = x % perSector k := Nat.and_two_pow_sub_one_eq_mod x _

/-- The complement of the mask has 32 bits. -/
lemma and_not_mask (hk : k < 32) (x : ℕ) :
    x &&& Word.not 32 (perSector k - 1) = x % 2 ^ 32 / perSector k * perSector k := by
  have hmod : x &&& Word.not 32 (perSector k - 1) = x % 2 ^ 32 &&& Word.not 32 (perSector k - 1) := by
    have hlt : Word.not 32 (perSector k - 1) < 2 ^ 32 := by
      rw [Word.not]
      omega
    rw [← Nat.mod_eq_of_lt (Nat.and_lt_two_pow x hlt), Nat.and_mod_two_pow, Nat.mod_eq_of_lt hlt]
  rw [hmod]
  exact Word.alignDown_eq (by omega) (Nat.mod_lt _ (by norm_num))

lemma shift_div (x : ℕ) : x >>> (k - 9) = x / perSector k := Nat.shiftRight_eq_div_pow x _

lemma shift_mul (x : ℕ) : x <<< (k - 9) = x * perSector k := Nat.shiftLeft_eq x _

/-! ### The aligned part and what is behind it -/

/-- From the start of a sector on, all blocks are read. -/
lemma readAligned_eq (hk : 9 ≤ k) (hk' : k < 32) (hcount : count < 2 ^ 32) (malloc : Option Mem)
    (secStart : ℕ) :
    readAligned (disc k disk malloc) (readAll k disk) secBuf secStart count buf ret mem =
      (((ret + count : ℕ) : ℤ), mem.copyFrom buf disk (secStart * 2 ^ k) (512 * count)) := by
  have hpos := perSector_pos (k := k)
  have hsplit := Nat.div_add_mod' count (perSector k)
  have hsecCount : (count &&& Word.not 32 (perSector k - 1)) >>> (k - 9) = count / perSector k := by
    rw [and_not_mask hk', Nat.mod_eq_of_lt hcount, shift_div, Nat.mul_div_cancel _ hpos]
  have hbytes : count / perSector k * 2 ^ k + 512 * (count % perSector k) = 512 * count := by
    rw [sector_eq hk, Nat.mul_left_comm, ← Nat.mul_add, hsplit]
  rw [readAligned]
  simp only [disc, readAll, mask_eq hk, and_mask, hsecCount, Int.toNat_natCast, shift_mul]
  rw [if_neg (Int.not_lt.mpr (Int.natCast_nonneg _)), if_neg (by simp)]
  by_cases hresidue : count % perSector k = 0
  · rw [hresidue, Nat.add_zero] at hsplit
    rw [hresidue, Nat.mul_zero, Nat.add_zero] at hbytes
    rw [if_pos hresidue, hsplit, hbytes]
  · have hlt : 512 * (count % perSector k) < 2 ^ k := by
      rw [sector_eq hk]
      exact Nat.mul_lt_mul_of_pos_left (Nat.mod_lt _ hpos) (by norm_num)
    have hbuf (i : ℕ) (hi : i < 512 * (count % perSector k)) :
        secBuf.copyFrom 0 disk ((secStart + count / perSector k) * 2 ^ k) (1 * 2 ^ k) (0 + i) =
          disk (secStart * 2 ^ k + count / perSector k * 2 ^ k + i) := by
      rw [Mem.copyFrom, if_pos (by omega), Nat.zero_add, Nat.sub_zero, Nat.add_mul]
    have hresidue' : (count % perSector k) <<< 9 = 512 * (count % perSector k) := by
      rw [Nat.shiftLeft_eq, Nat.mul_comm]
    rw [if_neg hresidue, if_neg (by simp), hresidue', Mem.copyFrom_trans hbuf, Nat.shiftLeft_eq,
      Mem.copyFrom_add, hbytes, Nat.add_assoc, hsplit]

/-! ### The unaligned part -/

/-- The sector that is taken for the one that the request starts in. -/
def firstSector (k start : ℕ) : ℕ := start % 2 ^ 32 / perSector k

/-- How many blocks are taken from the end of this sector. -/
def leading (k start count : ℕ) : ℕ := min (start - firstSector k start * perSector k) count

/-- What has been read of the first sector. -/
def sectorBuf (k : ℕ) (disk content : Mem) (start : ℕ) : Mem :=
  content.copyFrom 0 disk (firstSector k start * 2 ^ k) (2 ^ k)

lemma ataReadUnaligned_eq (hk : 9 ≤ k) (hk' : k < 32) (hcount : count < 2 ^ 32) (content : Mem) :
    ataReadUnaligned (disc k disk (some content)) (readAll k disk) start count buf mem =
      if leading k start count = 0 then
        ((count : ℤ), mem.copyFrom buf disk (firstSector k start * 2 ^ k) (512 * count))
      else
        ((count : ℤ), (mem.copyFrom buf (sectorBuf k disk content start)
          (Word.sub 32 (2 ^ k) (512 * leading k start count)) (512 * leading k start count)).copyFrom
            (buf + 512 * leading k start count) disk ((firstSector k start + 1) * 2 ^ k)
              (512 * (count - leading k start count))) := by
  have haligned : start &&& Word.not 32 (2 ^ k >>> 9 - 1) = firstSector k start * perSector k := by
    rw [mask_eq hk, and_not_mask hk', firstSector]
  have hsector : (firstSector k start * perSector k) >>> (k - 9) = firstSector k start := by
    rw [shift_div, Nat.mul_div_cancel _ perSector_pos]
  have hbytes : leading k start count <<< 9 = 512 * leading k start count := by
    rw [Nat.shiftLeft_eq, Nat.mul_comm]
  have hle : leading k start count ≤ count := Nat.min_le_right ..
  have hread : readAll k disk (firstSector k start) 1 content 0 =
      (1, sectorBuf k disk content start) := by
    rw [readAll, sectorBuf, Nat.one_mul]
    rfl
  rw [ataReadUnaligned]
  have hmalloc : (disc k disk (some content)).malloc = some content := rfl
  have hsize : (disc k disk (some content)).sectorSize = 2 ^ k := rfl
  have hshift : (disc k disk (some content)).sectorSizeShift = k := rfl
  rw [hmalloc, Option.elim_some]
  simp only [hsize, hshift, haligned, hsector]
  rw [← leading, hread, hbytes]
  by_cases hnone : leading k start count = 0
  · rw [if_pos hnone, if_neg (not_not.mpr hnone), readAligned_eq hk hk' hcount, Nat.zero_add]
  · rw [if_neg hnone, if_pos hnone, if_neg (by simp)]
    by_cases hall : count - leading k start count = 0
    · have hcount' : leading k start count = count := by omega
      rw [if_pos hall, hall, Nat.mul_zero, Mem.copyFrom_zero, hcount']
    · rw [if_neg hall, readAligned_eq hk hk' (by omega), Nat.add_sub_cancel' hle]

/-! ### Requests -/

lemma ataRead512_aligned (hk : 9 ≤ k) (malloc : Option Mem) (hstart : perSector k ∣ start)
    (hcount : perSector k ∣ count) :
    ataRead512 (disc k disk malloc) start count buf mem =
      ((count : ℤ), mem.copyFrom buf disk (512 * start) (512 * count)) := by
  have hread : (disc k disk malloc).readSectors = some (readAll k disk) := rfl
  have hsize : (disc k disk malloc).sectorSize = 2 ^ k := rfl
  have hshift : (disc k disk malloc).sectorSizeShift = k := rfl
  have hbytes {x : ℕ} (hx : perSector k ∣ x) : x / perSector k * 2 ^ k = 512 * x := by
    rw [sector_eq hk, Nat.mul_left_comm, Nat.div_mul_cancel hx]
  rw [ataRead512, hread, Option.elim_some]
  simp only [hsize, hshift]
  by_cases h512 : 2 ^ k = 512
  · have hone : perSector k = 1 := by
      have := sector_eq hk
      omega
    rw [if_pos h512, readAll, h512, Nat.mul_comm start, Nat.mul_comm count]
  · have hgt : 2 ^ k > 512 := lt_of_le_of_ne (Nat.pow_le_pow_right (by norm_num) hk : 2 ^ 9 ≤ _) (Ne.symm h512)
    have hmask : start &&& (perSector k - 1) = 0 ∧ count &&& (perSector k - 1) = 0 := by
      rw [and_mask, and_mask]
      exact ⟨Nat.mod_eq_zero_of_dvd hstart, Nat.mod_eq_zero_of_dvd hcount⟩
    rw [if_neg h512, if_pos hgt, mask_eq hk, if_pos hmask, readAll]
    simp only
    rw [if_neg (Int.not_lt.mpr (Int.natCast_nonneg _)), Int.toNat_natCast, shift_mul, shift_div, shift_div,
      Nat.div_mul_cancel hcount, hbytes hstart, hbytes hcount]

lemma ataRead512_unaligned (hk : 9 ≤ k) (malloc : Option Mem)
    (h : ¬(perSector k ∣ start ∧ perSector k ∣ count)) :
    ataRead512 (disc k disk malloc) start count buf mem =
      ataReadUnaligned (disc k disk malloc) (readAll k disk) start count buf mem := by
  have hread : (disc k disk malloc).readSectors = some (readAll k disk) := rfl
  have hsize : (disc k disk malloc).sectorSize = 2 ^ k := rfl
  have hne : ¬2 ^ k = 512 := by
    intro h512
    have hone : perSector k = 1 := by
      have := sector_eq hk
      omega
    rw [hone] at h
    exact h ⟨one_dvd _, one_dvd _⟩
  have hgt : 2 ^ k > 512 := lt_of_le_of_ne (Nat.pow_le_pow_right (by norm_num) hk : 2 ^ 9 ≤ _) (Ne.symm hne)
  have hmask : ¬(start &&& (perSector k - 1) = 0 ∧ count &&& (perSector k - 1) = 0) := by
    rw [and_mask, and_mask]
    exact fun hand => h ⟨Nat.dvd_of_mod_eq_zero hand.1, Nat.dvd_of_mod_eq_zero hand.2⟩
  rw [ataRead512, hread, Option.elim_some]
  simp only [hsize]
  rw [if_neg hne, if_pos hgt, mask_eq hk, if_neg hmask]

/-- Whatever the disk holds, all blocks of a request are read, and nothing else is written. -/
def Agrees (k : ℕ) (r : Request) (allocated : Bool) : Prop := ∀ disk content mem : Mem,
  ataRead512 (disc k disk (if allocated then some content else none)) r.start r.count r.buf mem =
    ((r.count : ℤ), mem.copyFrom r.buf disk (512 * r.start) (512 * r.count))

/-- The request starts and ends at a sector, or there is memory for a sector and it starts at a sector
below `2 ^ 32`, or it takes from the end of its first sector what it would take from its start on. -/
def Fits (k : ℕ) (r : Request) (allocated : Bool) : Prop :=
  perSector k ∣ r.start ∧ perSector k ∣ r.count ∨
    allocated = true ∧ (r.count = 0 ∨ r.start < 2 ^ 32 ∧
      (perSector k ∣ r.start ∨
        min (r.start % perSector k) r.count = perSector k - r.start % perSector k))

/-! ### Which requests are read right -/

lemma firstSector_eq (hstart : start < 2 ^ 32) : firstSector k start = start / perSector k := by
  rw [firstSector, Nat.mod_eq_of_lt hstart]

lemma sub_firstSector (hstart : start < 2 ^ 32) :
    start - firstSector k start * perSector k = start % perSector k := by
  have := Nat.div_add_mod' start (perSector k)
  rw [firstSector_eq hstart]
  omega

lemma bytes_eq (hk : 9 ≤ k) (x : ℕ) : x * 2 ^ k = 512 * (x * perSector k) := by
  rw [sector_eq hk, Nat.mul_left_comm]

/-- The first sector ends below `2 ^ 32` blocks. -/
lemma firstSector_add_le (start : ℕ) (hk : k < 32) : firstSector k start * perSector k + perSector k ≤ 2 ^ 32 := by
  have hdvd : 2 ^ 32 = 2 ^ (32 - (k - 9)) * perSector k := by
    rw [perSector, ← pow_add, Nat.sub_add_cancel (by omega)]
  have hlt : firstSector k start < 2 ^ (32 - (k - 9)) := by
    rw [firstSector, Nat.div_lt_iff_lt_mul perSector_pos, ← hdvd]
    exact Nat.mod_lt _ (by norm_num)
  calc firstSector k start * perSector k + perSector k = (firstSector k start + 1) * perSector k := by
        rw [Nat.add_mul, Nat.one_mul]
    _ ≤ 2 ^ (32 - (k - 9)) * perSector k := Nat.mul_le_mul_right _ hlt
    _ = 2 ^ 32 := hdvd.symm

/-- A request that fits and is not aligned. -/
lemma ataReadUnaligned_of_fits (hk : 9 ≤ k) (hk' : k < 32) (r : Request) (content : Mem)
    (h : r.count = 0 ∨ r.start < 2 ^ 32 ∧ (perSector k ∣ r.start ∨
      min (r.start % perSector k) r.count = perSector k - r.start % perSector k)) :
    ataReadUnaligned (disc k disk (some content)) (readAll k disk) r.start r.count r.buf mem =
      ((r.count : ℤ), mem.copyFrom r.buf disk (512 * r.start) (512 * r.count)) := by
  have hlt := r.lt
  rw [ataReadUnaligned_eq hk hk' (by omega)]
  obtain hnone | ⟨hstart, hdvd | hleading⟩ := h
  · rw [if_pos (by rw [leading, hnone, Nat.min_zero]), hnone, Nat.mul_zero, Mem.copyFrom_zero,
      Mem.copyFrom_zero]
  · have hnone : leading k r.start r.count = 0 := by
      rw [leading, sub_firstSector hstart, Nat.mod_eq_zero_of_dvd hdvd, Nat.zero_min]
    rw [if_pos hnone, bytes_eq hk, firstSector_eq hstart, Nat.div_mul_cancel hdvd]
  · have hmod := Nat.mod_lt r.start (perSector_pos (k := k))
    have hsplit := Nat.div_add_mod' r.start (perSector k)
    have hlead : leading k r.start r.count = perSector k - r.start % perSector k := by
      rw [leading, sub_firstSector hstart, hleading]
    have hle : perSector k - r.start % perSector k ≤ r.count := hleading ▸ Nat.min_le_right ..
    have hsize : 2 ^ k = 512 * perSector k := sector_eq hk
    have hpow : 2 ^ k < 2 ^ 32 := Nat.pow_lt_pow_right (by norm_num) hk'
    have hoffset : Word.sub 32 (2 ^ k) (512 * (perSector k - r.start % perSector k)) =
        512 * (r.start % perSector k) := by
      rw [Word.sub_eq (by omega) hpow]
      omega
    have hfirst : firstSector k r.start * 2 ^ k = 512 * (r.start / perSector k * perSector k) := by
      rw [bytes_eq hk, firstSector_eq hstart]
    have hbuf (i : ℕ) (hi : i < 512 * (perSector k - r.start % perSector k)) :
        sectorBuf k disk content r.start (512 * (r.start % perSector k) + i) =
          disk (512 * r.start + i) := by
      rw [sectorBuf, Mem.copyFrom, if_pos (by omega), hfirst]
      congr 1
      omega
    have hnext : (firstSector k r.start + 1) * 2 ^ k =
        512 * r.start + 512 * (perSector k - r.start % perSector k) := by
      rw [Nat.add_mul, Nat.one_mul, hfirst]
      omega
    rw [hlead, if_neg (by omega), hoffset, Mem.copyFrom_trans hbuf, hnext, Mem.copyFrom_add,
      ← Nat.mul_add, Nat.add_sub_cancel' hle]

/-- A disk of which only the first byte of a block is set. -/
def markAt (start : ℕ) : Mem := fun a => if a = 512 * start then 1 else 0

lemma markAt_eq_one {a : ℕ} : markAt start a = 1 ↔ a = 512 * start := by
  rw [markAt]
  split_ifs with h <;> simp [h]

/-- The first byte of the buffer tells whether the first block has been read. -/
lemma fits_of_mark (hk : 9 ≤ k) (hk' : k < 32) (r : Request) (hcount : 0 < r.count)
    (h : (ataReadUnaligned (disc k (markAt r.start) (some fun _ => 0)) (readAll k (markAt r.start))
      r.start r.count r.buf fun _ => 0).2 r.buf = 1) :
    r.start < 2 ^ 32 ∧ (perSector k ∣ r.start ∨
      min (r.start % perSector k) r.count = perSector k - r.start % perSector k) := by
  have hlt := r.lt
  have hend := firstSector_add_le r.start hk'
  have hpos := perSector_pos (k := k)
  rw [ataReadUnaligned_eq hk hk' (by omega)] at h
  by_cases hnone : leading k r.start r.count = 0
  · rw [if_pos hnone] at h
    simp only [Mem.copyFrom] at h
    rw [if_pos (by omega), markAt_eq_one, bytes_eq hk] at h
    have hstart : firstSector k r.start * perSector k = r.start := by omega
    exact ⟨by omega, .inl ⟨_, by rw [Nat.mul_comm, hstart]⟩⟩
  · rw [if_neg hnone] at h
    simp only [Mem.copyFrom] at h
    rw [if_neg (by omega), if_pos (by omega), Nat.sub_self, Nat.add_zero, sectorBuf, Mem.copyFrom] at h
    have hsize : 2 ^ k = 512 * perSector k := sector_eq hk
    have hpow : 2 ^ k < 2 ^ 32 := Nat.pow_lt_pow_right (by norm_num) hk'
    have hleading : leading k r.start r.count =
      min (r.start - firstSector k r.start * perSector k) r.count := rfl
    by_cases hinside : 512 * leading k r.start r.count ≤ 2 ^ k
    · rw [Word.sub_eq hinside hpow, if_pos (by omega), markAt_eq_one, bytes_eq hk] at h
      have hstart : r.start < 2 ^ 32 := by omega
      rw [sub_firstSector hstart] at hleading
      have hfirst := sub_firstSector (k := k) hstart
      exact ⟨hstart, .inr (by omega)⟩
    · rw [Word.sub_eq_wrap (by omega) (by omega), if_neg (by omega)] at h
      simp at h

/-- Which requests are read right. -/
theorem ataRead512_iff (hk : 9 ≤ k) (hk' : k < 32) (r : Request) (allocated : Bool) :
    Agrees k r allocated ↔ Fits k r allocated := by
  by_cases haligned : perSector k ∣ r.start ∧ perSector k ∣ r.count
  · refine iff_of_true ?_ (.inl haligned)
    intro disk content mem
    exact ataRead512_aligned hk _ haligned.1 haligned.2
  · rw [Fits, or_iff_right haligned, Agrees]
    constructor
    · intro h
      have hread := h (markAt r.start) (fun _ => 0) fun _ => 0
      rw [ataRead512_unaligned hk _ haligned] at hread
      cases allocated with
      | false =>
        have hret : (-1 : ℤ) = r.count := congrArg Prod.fst hread
        omega
      | true =>
        refine ⟨rfl, (Nat.eq_zero_or_pos r.count).imp_right fun hcount => ?_⟩
        refine fits_of_mark hk hk' r hcount ?_
        rw [if_pos rfl] at hread
        rw [hread]
        simp only [Mem.copyFrom]
        rw [if_pos (by omega), markAt_eq_one]
        omega
    · rintro ⟨rfl, hfits⟩ disk content mem
      rw [ataRead512_unaligned hk _ haligned, if_pos rfl]
      exact ataReadUnaligned_of_fits hk hk' r content hfits

/-- The second half of a sector of 4096 bytes and the sector behind it. -/
theorem ataRead512_iff_halves : Agrees 12 ⟨4, 12, 0x1000, by decide, by decide⟩ true :=
  (ataRead512_iff (by norm_num) (by norm_num) _ true).mpr
    (.inr ⟨rfl, .inr ⟨by norm_num, .inr (by decide)⟩⟩)

/-- Of a sector of 4096 bytes, block 7 is read in place of block 1. -/
theorem wrong_block : ¬Agrees 12 ⟨1, 1, 0x1000, by decide, by decide⟩ true := by
  intro h
  have hbyte := congrArg (fun r => r.2 0x1000) (h (markAt 1) (fun _ => 0) fun _ => 0)
  revert hbyte
  decide

end ApuBios.Ata
