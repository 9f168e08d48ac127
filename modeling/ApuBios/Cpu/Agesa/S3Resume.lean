import ApuBios.Library.NorFlash
import ApuBios.Library.Word

/-!
# S3 data in flash

Model of `OemAgesaSaveS3Info` and `OemAgesaGetS3Info` in `cpu/amd/agesa/s3_resume.c`. The flash is
mapped: what it stores is read from memory, and what its driver does is a change of memory.
-/

namespace ApuBios.S3Resume

inductive S3DataType
  | nonVolatile
  | volatile

/-- `CONFIG_S3_DATA_POS` and `CONFIG_AMD_SB_SPI_TX_LEN` -/
structure Config where
  s3DataPos : ℕ
  txLen : ℕ
  txLen_pos : 0 < txLen

def S3_DATA_VOLATILE_SIZE : ℕ := 0x6000
def S3_DATA_MTRR_SIZE : ℕ := 0x1000

/-- `S3_DATA_NONVOLATILE_POS` and `S3_DATA_VOLATILE_POS` -/
def Config.pos (c : Config) : S3DataType → ℕ
  | .nonVolatile => c.s3DataPos + S3_DATA_VOLATILE_SIZE + S3_DATA_MTRR_SIZE
  | .volatile => c.s3DataPos

/-- The fields of `struct spi_flash` that are used. -/
structure SpiFlash where
  sectorSize : ℕ
  sectorSize_pos : 0 < sectorSize
  erase : Mem → (offset len : ℕ) → Mem
  write : Mem → (offset : ℕ) → (buf : List UInt8) → Mem

/-- Memory, and the offset and length of every write that was handed to the driver. -/
structure State where
  mem : Mem
  writes : List (ℕ × ℕ)

/-- `len` bytes of a buffer. -/
def bytes (buf : Mem) (p len : ℕ) : List UInt8 := (List.range len).map fun i => buf (p + i)

def State.erase (flash : SpiFlash) (offset len : ℕ) (s : State) : State :=
  { s with mem := flash.erase s.mem offset len }

/-- `flash->write(flash, offset, len, buf + p)` -/
def State.write (flash : SpiFlash) (offset len : ℕ) (buf : Mem) (p : ℕ) (s : State) : State where
  mem := flash.write s.mem offset (bytes buf p len)
  writes := s.writes ++ [(offset, len)]

/-- `memcmp`, of memory with a buffer -/
def memcmp (m : Mem) (src1 : ℕ) (buf : Mem) (src2 : ℕ) : ℕ → ℤ
  | 0 => 0
  | n + 1 =>
    let result : ℤ := (m src1).toNat - (buf src2).toNat
    if result = 0 then memcmp m (src1 + 1) buf (src2 + 1) n else result

/-! ### Saving -/

section Saving

variable (c : Config) (flash : SpiFlash) (newData : Mem)

/-- The loop over the pieces of a sector, with `nvram_pos` behind the last one. -/
def writeLoop (stop pos new nvramPos : ℕ) (s : State) : ℕ × State :=
  if nvramPos < stop then
    writeLoop stop pos new (nvramPos + c.txLen)
      (s.write flash (Word.add 32 pos nvramPos) c.txLen newData (new + nvramPos))
  else (nvramPos, s)
termination_by stop - nvramPos
decreasing_by
  have := c.txLen_pos
  omega

/-- A sector that does not match. -/
def writeSector (pos new bytesToProcess : ℕ) (s : State) : State :=
  let s := s.erase flash pos flash.sectorSize
  let pieces := writeLoop c flash newData (bytesToProcess - bytesToProcess % c.txLen) pos new 0 s
  pieces.2.write flash (Word.add 32 pos pieces.1) (bytesToProcess % c.txLen) newData
    (new + pieces.1)

def bytesToProcess (dataSize : ℕ) : ℕ :=
  if dataSize ≥ flash.sectorSize then flash.sectorSize else dataSize

lemma bytesToProcess_pos {dataSize : ℕ} (h : 0 < dataSize) :
    0 < bytesToProcess flash dataSize := by
  rw [bytesToProcess]
  split_ifs
  · exact flash.sectorSize_pos
  · exact h

/-- The loop over the sectors. -/
def saveLoop (dataSize pos new : ℕ) (s : State) : State :=
  if 0 < dataSize then
    let n := bytesToProcess flash dataSize
    let s := if memcmp s.mem pos newData new n ≠ 0 then writeSector c flash newData pos new n s
      else s
    saveLoop (dataSize - n) (Word.add 32 pos n) (new + n) s
  else s
termination_by dataSize
decreasing_by
  have := bytesToProcess_pos flash ‹0 < dataSize›
  omega

end Saving

/-- The size, and behind it the data. -/
def newData (m : Mem) (dataSize data : ℕ) : Mem :=
  Mem.writeLE (fun i => m (data + (i - 4))) 0 4 dataSize

/-- `flash` is what `spi_flash_probe` returns. -/
def oemAgesaSaveS3Info (c : Config) (flash : Option SpiFlash) (s3DataType : S3DataType)
    (dataSize data : ℕ) (m : Mem) : State :=
  match flash with
  | none => ⟨m, []⟩
  | some flash =>
    saveLoop c flash (newData m dataSize data) (Word.add 32 dataSize 4) (c.pos s3DataType) 0
      ⟨m, []⟩

/-! ### Reading -/

/-- Memory, `DataSize` and `Data`. `heapBase` is what `GetHeapBase` returns. -/
def oemAgesaGetS3Info (c : Config) (heapBase : ℕ) (m : Mem) : S3DataType → Mem × ℕ × ℕ
  | .nonVolatile =>
    let data := c.pos .nonVolatile
    (m, m.readLE data 4, Word.add 32 data 4)
  | .volatile =>
    let dataSize := m.readLE (c.pos .volatile) 4
    (m.memcpy heapBase (c.pos .volatile + 4) dataSize, dataSize, heapBase)

/-! ### What is to hold -/

/-- The driver in an area of memory: a sector is erased to `0xff`, bytes are combined with what is
there. Only writes of at most `txLen` bytes have to work. -/
structure SpiFlash.Nor (flash : SpiFlash) (txLen start stop : ℕ) : Prop where
  erase : ∀ m offset, flash.sectorSize ∣ offset → start ≤ offset →
    offset + flash.sectorSize ≤ stop →
      flash.erase m offset flash.sectorSize = m.memset offset 0xff flash.sectorSize
  write : ∀ m offset buf, buf.length ≤ txLen → start ≤ offset → offset + buf.length ≤ stop →
    flash.write m offset buf = (NorFlash.cellsFrom offset buf).foldl NorFlash.burn m
  writeNothing : ∀ m offset, flash.write m offset [] = m

/-- The size of the sectors that cover `n` bytes. -/
def SpiFlash.covering (flash : SpiFlash) (n : ℕ) : ℕ :=
  (n + flash.sectorSize - 1) / flash.sectorSize * flash.sectorSize

/-- What was saved is read back, only its sectors have changed, and no write was too long. -/
structure Saved (c : Config) (flash : SpiFlash) (heapBase dataSize data : ℕ) (m : Mem)
    (s : State) : Prop where
  size : (oemAgesaGetS3Info c heapBase s.mem .nonVolatile).2.1 = dataSize
  data : ∀ i < dataSize, (oemAgesaGetS3Info c heapBase s.mem .nonVolatile).1
    ((oemAgesaGetS3Info c heapBase s.mem .nonVolatile).2.2 + i) = m (data + i)
  frame : ∀ a, a < c.pos .nonVolatile ∨
    c.pos .nonVolatile + flash.covering (4 + dataSize) ≤ a → s.mem a = m a
  writes : ∀ w ∈ s.writes, w.2 ≤ c.txLen

variable {c : Config} {flash : SpiFlash} {buf m : Mem} {start stop pos n k i a : ℕ} {s : State}

/-! ### Buffers -/

@[simp] lemma length_bytes : (bytes buf k n).length = n := by simp [bytes]

lemma bytes_getElem? (h : i < n) : (bytes buf k n)[i]? = some (buf (k + i)) := by
  simp [bytes, List.getElem?_range h]

lemma bytes_add (k n i : ℕ) : bytes buf k (n + i) = bytes buf k n ++ bytes buf (k + n) i := by
  rw [bytes, List.range_add, List.map_append, List.map_map]
  refine congrArg _ (List.map_congr_left fun j _ => ?_)
  rw [Function.comp_apply, Nat.add_assoc]

lemma memcmp_eq_zero :
    memcmp m pos buf k n = 0 ↔ ∀ i < n, m (pos + i) = buf (k + i) := by
  induction n generalizing pos k with
  | zero => exact iff_of_true rfl fun i hi => absurd hi (Nat.not_lt_zero i)
  | succ n ih =>
    rw [memcmp]
    split_ifs with hsame
    · have hbyte : m pos = buf k := UInt8.toNat_inj.mp (by omega)
      rw [ih]
      constructor
      · intro h i hi
        cases i with
        | zero => exact hbyte
        | succ i =>
          have := h i (by omega)
          rwa [Nat.add_right_comm, Nat.add_right_comm k] at this
      · intro h i hi
        have := h (i + 1) (by omega)
        rwa [← Nat.add_assoc, ← Nat.add_assoc, Nat.add_right_comm, Nat.add_right_comm k] at this
    · refine iff_of_false hsame fun h => hsame ?_
      have hbyte : m pos = buf k := h 0 (Nat.succ_pos n)
      rw [hbyte, sub_self]

/-! ### A sector -/

/-- Bytes of a buffer that are written to consecutive cells. -/
def burned (buf : Mem) (k n : ℕ) (m : Mem) (pos : ℕ) : Mem :=
  (NorFlash.cellsFrom pos (bytes buf k n)).foldl NorFlash.burn m

lemma burned_add : burned buf k (n + i) m pos =
    burned buf (k + n) i (burned buf k n m pos) (pos + n) := by
  rw [burned, bytes_add, NorFlash.cellsFrom_append, List.foldl_append, length_bytes]
  rfl

lemma burned_frame (h : a < pos ∨ pos + n ≤ a) : burned buf k n m pos a = m a := by
  refine NorFlash.burn_foldl_frame fun cell hcell => ?_
  have := NorFlash.mem_cellsFrom hcell
  rw [length_bytes] at this
  omega

/-- Erased cells take every byte. -/
lemma burned_erased (hi : i < n) (hn : n ≤ a) :
    burned buf k n (m.memset pos 0xff a) pos (pos + i) = buf (k + i) := by
  rw [burned, NorFlash.burn_cellsFrom, Nat.add_sub_cancel_left, bytes_getElem? hi]
  dsimp only
  rw [if_pos (Nat.le_add_right pos i), Mem.memset, if_pos ⟨by omega, by omega⟩]
  exact UInt8.neg_one_and

lemma write_mem (h : flash.Nor c.txLen start stop) (hn : n ≤ c.txLen) (hstart : start ≤ pos)
    (hstop : pos + i + n ≤ stop) (hmax : stop ≤ 2 ^ 32) :
    (s.write flash (Word.add 32 pos i) n buf k).mem = burned buf k n s.mem (pos + i) := by
  rcases Nat.eq_zero_or_pos n with rfl | hpos
  · exact h.writeNothing _ _
  · rw [Word.add_eq (by omega)]
    exact h.write _ _ _ (by rwa [length_bytes]) (by omega) (by rwa [length_bytes])

/-- No write is longer than the controller allows. -/
def Short (c : Config) (s : State) : Prop := ∀ w ∈ s.writes, w.2 ≤ c.txLen

lemma Short.write (h : Short c s) (hn : n ≤ c.txLen) :
    Short c (s.write flash pos n buf k) := by
  intro w hw
  rcases List.mem_append.mp hw with hw | hw
  · exact h w hw
  · rw [List.mem_singleton.mp hw]
    exact hn

/-- The pieces up to a multiple of their length. -/
lemma writeLoop_eq (h : flash.Nor c.txLen start stop) (hstart : start ≤ pos)
    (hstop : pos + n ≤ stop) (hmax : stop ≤ 2 ^ 32) (hdvd : c.txLen ∣ n - i) (hi : i ≤ n)
    (hshort : Short c s) :
    (writeLoop c flash buf n pos k i s).1 = n ∧
      (writeLoop c flash buf n pos k i s).2.mem = burned buf (k + i) (n - i) s.mem (pos + i) ∧
      Short c (writeLoop c flash buf n pos k i s).2 := by
  induction i, s using writeLoop.induct c flash buf n pos k with
  | case1 i s hlt ih =>
    have hle : c.txLen ≤ n - i := Nat.le_of_dvd (by omega) hdvd
    have hrest : n - (i + c.txLen) = n - i - c.txLen := by omega
    obtain ⟨hpos, hmem, hshort'⟩ := ih (by rw [hrest]; exact Nat.dvd_sub hdvd dvd_rfl) (by omega)
      (hshort.write le_rfl)
    rw [writeLoop, if_pos hlt]
    refine ⟨hpos, ?_, hshort'⟩
    have hsplit : n - i = c.txLen + (n - (i + c.txLen)) := by omega
    rw [hmem, write_mem h le_rfl hstart (by omega) hmax, hsplit, burned_add, Nat.add_assoc,
      Nat.add_assoc]
  | case2 i s hlt =>
    have hsame : i = n := by omega
    rw [writeLoop, if_neg hlt, hsame, Nat.sub_self]
    exact ⟨rfl, rfl, hshort⟩

/-- A sector that did not match starts with the data. -/
lemma writeSector_eq (h : flash.Nor c.txLen start stop) (hstart : start ≤ pos)
    (hdvd : flash.sectorSize ∣ pos) (hn : n ≤ flash.sectorSize)
    (hstop : pos + flash.sectorSize ≤ stop) (hmax : stop ≤ 2 ^ 32) (hshort : Short c s) :
    (writeSector c flash buf pos k n s).mem =
        burned buf k n (s.mem.memset pos 0xff flash.sectorSize) pos ∧
      Short c (writeSector c flash buf pos k n s) := by
  have hmod : n % c.txLen < c.txLen := Nat.mod_lt _ c.txLen_pos
  have hle := Nat.mod_le n c.txLen
  have hshort' : Short c (s.erase flash pos flash.sectorSize) := hshort
  obtain ⟨hpos, hmem, hwrites⟩ := @writeLoop_eq c flash buf start stop pos (n - n % c.txLen) k 0 _
    h hstart (by omega) hmax (Nat.dvd_sub_mod n) (Nat.zero_le _) hshort'
  rw [writeSector, hpos]
  refine ⟨?_, hwrites.write hmod.le⟩
  have herase : (s.erase flash pos flash.sectorSize).mem =
      s.mem.memset pos 0xff flash.sectorSize := h.erase _ _ hdvd hstart hstop
  have hsplit : n = n - n % c.txLen + n % c.txLen := by omega
  rw [write_mem h hmod.le hstart (by omega) hmax, hmem, herase, Nat.add_zero, Nat.add_zero,
    Nat.sub_zero, ← burned_add, ← hsplit]

/-! ### The sectors -/

/-- What the loop leaves for `n` bytes of the buffer. -/
structure Stored (buf : Mem) (k n pos size : ℕ) (m m' : Mem) : Prop where
  data : ∀ i < n, m' (pos + i) = buf (k + i)
  frame : ∀ a, a < pos ∨ pos + size ≤ a → m' a = m a

/-- A sector that matches is not written, and holds the data already. -/
lemma sector_stored (h : flash.Nor c.txLen start stop) (hstart : start ≤ pos)
    (hdvd : flash.sectorSize ∣ pos) (hn : n ≤ flash.sectorSize)
    (hstop : pos + flash.sectorSize ≤ stop) (hmax : stop ≤ 2 ^ 32) (hshort : Short c s) :
    let s' := if memcmp s.mem pos buf k n ≠ 0 then writeSector c flash buf pos k n s else s
    Stored buf k n pos flash.sectorSize s.mem s'.mem ∧ Short c s' := by
  dsimp only
  split_ifs with hcmp
  · obtain ⟨hmem, hshort'⟩ := @writeSector_eq c flash buf start stop pos n k s h hstart hdvd hn
      hstop hmax hshort
    refine ⟨⟨fun i hi => ?_, fun a ha => ?_⟩, hshort'⟩
    · rw [hmem, burned_erased hi hn]
    · rw [hmem, burned_frame (by omega), Mem.memset_frame ha]
  · exact ⟨⟨memcmp_eq_zero.mp (not_not.mp hcmp), fun a ha => rfl⟩, hshort⟩

lemma Stored.append {m' m'' : Mem} {size' : ℕ} (h : Stored buf k n pos a m m')
    (h' : Stored buf (k + n) i (pos + n) size' m' m'') (hn : n = a ∨ i = 0 ∧ size' = 0) :
    Stored buf k (n + i) pos (a + size') m m'' := by
  obtain ⟨hdata, hframe⟩ := h
  obtain ⟨hdata', hframe'⟩ := h'
  refine ⟨fun j hj => ?_, fun x hx => ?_⟩
  · by_cases hlow : j < n
    · rw [hframe' _ (by omega), hdata j hlow]
    · have hrest := hdata' (j - n) (by omega)
      have hsplit : n + (j - n) = j := by omega
      rwa [Nat.add_assoc, Nat.add_assoc, hsplit] at hrest
  · rw [hframe' x (by omega), hframe x (by omega)]

@[simp] lemma covering_zero : flash.covering 0 = 0 := by
  have := flash.sectorSize_pos
  rw [SpiFlash.covering, Nat.div_eq_of_lt (by omega), Nat.zero_mul]

lemma covering_step (h : 0 < n) :
    flash.covering n = flash.sectorSize + flash.covering (n - bytesToProcess flash n) := by
  have hpos := flash.sectorSize_pos
  rw [bytesToProcess]
  split_ifs with hle
  · have hsplit : n + flash.sectorSize - 1 =
        n - flash.sectorSize + flash.sectorSize - 1 + flash.sectorSize := by omega
    rw [SpiFlash.covering, SpiFlash.covering, hsplit, Nat.add_div_right _ hpos, Nat.succ_mul,
      Nat.add_comm]
  · have hsplit : n + flash.sectorSize - 1 = n - 1 + flash.sectorSize := by omega
    rw [Nat.sub_self, covering_zero, SpiFlash.covering, hsplit, Nat.add_div_right _ hpos,
      Nat.div_eq_of_lt (by omega), Nat.zero_add, Nat.one_mul, Nat.add_zero]

lemma bytesToProcess_le : bytesToProcess flash n ≤ n ∧
    bytesToProcess flash n ≤ flash.sectorSize := by
  rw [bytesToProcess]
  split_ifs
  · exact ⟨by assumption, le_rfl⟩
  · exact ⟨le_rfl, by omega⟩

lemma le_covering : n ≤ flash.covering n := by
  have hmod := Nat.mod_lt (n + flash.sectorSize - 1) flash.sectorSize_pos
  have hdiv := Nat.div_add_mod' (n + flash.sectorSize - 1) flash.sectorSize
  rw [SpiFlash.covering]
  omega

lemma saveLoop_zero : saveLoop c flash buf 0 pos k s = s := by
  rw [saveLoop, if_neg (Nat.lt_irrefl 0)]

/-- What all sectors hold after the loop. -/
lemma saveLoop_stored (h : flash.Nor c.txLen start stop) (hmax : stop ≤ 2 ^ 32)
    (hstart : start ≤ pos) (hdvd : flash.sectorSize ∣ pos) (hstop : pos + flash.covering n ≤ stop)
    (hshort : Short c s) :
    Stored buf k n pos (flash.covering n) s.mem (saveLoop c flash buf n pos k s).mem ∧
      Short c (saveLoop c flash buf n pos k s) := by
  induction n, pos, k, s using saveLoop.induct c flash buf with
  | case1 n pos k s hpos len s' ih =>
    obtain ⟨hle, hsector⟩ := @bytesToProcess_le flash n
    rw [covering_step hpos] at hstop ⊢
    obtain ⟨hstored, hshort'⟩ := @sector_stored c flash buf start stop pos len k s h hstart hdvd
      hsector (by omega) hmax hshort
    rw [saveLoop, if_pos hpos]
    rcases Nat.eq_zero_or_pos (n - len) with hdone | hmore
    · have hnone : Stored buf (k + len) 0 (pos + len) 0 s'.mem s'.mem :=
        ⟨fun i hi => absurd hi (Nat.not_lt_zero i), fun a ha => rfl⟩
      have hall := hstored.append hnone (.inr ⟨rfl, rfl⟩)
      have hlen : len = n := by omega
      change Stored _ _ _ _ _ _ (saveLoop c flash buf (n - len) _ _ s').mem ∧
        Short c (saveLoop c flash buf (n - len) _ _ s')
      rw [hdone, saveLoop_zero, covering_zero, ← hlen]
      exact ⟨hall, hshort'⟩
    · have hfull : len = flash.sectorSize := by
        have hdef : len = bytesToProcess flash n := rfl
        rw [bytesToProcess] at hdef
        split_ifs at hdef <;> omega
      have hrest : flash.covering (n - len) = _ := covering_step hmore
      have hsize := flash.sectorSize_pos
      have hstop' : pos + (flash.sectorSize + flash.covering (n - len)) ≤ stop := hstop
      have hnext : Word.add 32 pos len = pos + len := Word.add_eq (by omega)
      rw [hnext] at ih
      obtain ⟨hstored', hshort''⟩ := ih (by omega) (by rw [hfull]; exact Nat.dvd_add hdvd dvd_rfl)
        (by omega) hshort'
      have hall := hstored.append hstored' (.inl hfull)
      have hsplit : len + (n - len) = n := by omega
      rw [hsplit] at hall
      dsimp only
      rw [hnext]
      exact ⟨hall, hshort''⟩
  | case2 n pos k s hpos =>
    have hzero : n = 0 := by omega
    rw [hzero, saveLoop_zero]
    exact ⟨⟨fun i hi => absurd hi (Nat.not_lt_zero i), fun a ha => rfl⟩, hshort⟩

/-! ### Reading back -/

lemma newData_size {dataSize data : ℕ} (h : dataSize < 2 ^ 32) :
    Mem.readLE (newData m dataSize data) 0 4 = dataSize := Mem.readLE_writeLE h

lemma newData_data {dataSize data : ℕ} : newData m dataSize data (4 + i) = m (data + i) := by
  rw [newData, Mem.writeLE_frame (by omega), Nat.add_sub_cancel_left]

/-- What was saved is read back, whatever the flash held. -/
theorem oemAgesaSaveS3Info_saved (c : Config) (flash : SpiFlash) (heapBase dataSize data area : ℕ)
    (m : Mem) (hflash : flash.Nor c.txLen (c.pos .nonVolatile) (c.pos .nonVolatile + area))
    (haligned : flash.sectorSize ∣ c.pos .nonVolatile)
    (hlarge : flash.covering (4 + dataSize) ≤ area)
    (hmapped : c.pos .nonVolatile + area ≤ 2 ^ 32) :
    Saved c flash heapBase dataSize data m
      (oemAgesaSaveS3Info c (some flash) .nonVolatile dataSize data m) := by
  have hle : 4 + dataSize ≤ flash.covering (4 + dataSize) := le_covering
  have hpos : 0 < c.pos .nonVolatile := Nat.add_pos_right _ (by decide)
  have hsize : Word.add 32 dataSize 4 = 4 + dataSize := by
    rw [Word.add_eq (by omega), Nat.add_comm]
  have hnone : Short c ⟨m, []⟩ := fun w hw => absurd hw List.not_mem_nil
  obtain ⟨⟨hdata, hframe⟩, hshort⟩ := @saveLoop_stored c flash (newData m dataSize data) _ _ _
    (4 + dataSize) 0 ⟨m, []⟩ hflash hmapped le_rfl haligned (by omega) hnone
  rw [oemAgesaSaveS3Info, hsize]
  refine ⟨?_, fun i hi => ?_, hframe, hshort⟩
  · have hread := Mem.readLE_shift (n := 4) fun i hi => hdata i (by omega)
    exact hread.trans (newData_size (by omega))
  · have hbyte := hdata (4 + i) (by omega)
    rw [Nat.zero_add, newData_data, ← Nat.add_assoc] at hbyte
    rw [oemAgesaGetS3Info, Word.add_eq (by omega)]
    exact hbyte

/-- A driver as it is asked for. -/
def norFlash (sectorSize : ℕ) (h : 0 < sectorSize) : SpiFlash where
  sectorSize := sectorSize
  sectorSize_pos := h
  erase m offset len := m.memset offset 0xff len
  write m offset buf := (NorFlash.cellsFrom offset buf).foldl NorFlash.burn m

lemma norFlash_nor {sectorSize txLen : ℕ} (h : 0 < sectorSize) :
    (norFlash sectorSize h).Nor txLen start stop :=
  ⟨fun _ _ _ _ _ => rfl, fun _ _ _ _ _ _ => rfl, fun _ _ => rfl⟩

/-- 5000 bytes, which take two sectors and leave one byte for the last write. -/
theorem oemAgesaSaveS3Info_saved_twoSectors :
    Saved ⟨0xffff0000, 4, by decide⟩ (norFlash 4096 (by decide)) 0 5001 0x100000 (fun _ => 0)
      (oemAgesaSaveS3Info ⟨0xffff0000, 4, by decide⟩ (some (norFlash 4096 (by decide)))
        .nonVolatile 5001 0x100000 fun _ => 0) :=
  oemAgesaSaveS3Info_saved ⟨0xffff0000, 4, by decide⟩ (norFlash 4096 (by decide)) 0 5001 0x100000
    8192 (fun _ => 0) (norFlash_nor (by decide)) (by decide) (by decide) (by decide)

end ApuBios.S3Resume
