import ApuBios.Drivers.Spi.Flash

/-!
# Writing by page program

`winbond_write` and `macronix_write` are the same loop over chunks that end at multiples of the
page size, or of the page limit of the controller if that is smaller.
-/

namespace ApuBios.Spi

open NorFlash

/-- `CONTROLLER_PAGE_LIMIT`. -/
def controllerPageLimit : ℕ := 64

/-- The fields of `struct winbond_spi_flash_params` that the driver reads. -/
structure WinbondParams where
  id : ℕ
  l2PageSize : ℕ
  pagesPerSector : ℕ
  sectorsPerBlock : ℕ
  nrBlocks : ℕ
  name : String

/-- The fields of `struct macronix_spi_flash_params`. -/
structure MacronixParams where
  idcode : ℕ
  pageSize : ℕ
  pagesPerSector : ℕ
  sectorsPerBlock : ℕ
  nrBlocks : ℕ
  name : String

def winbondSpiFlashTable : List WinbondParams :=
  [⟨0x3015, 8, 16, 16, 32, "W25X16"⟩,
   ⟨0x3016, 8, 16, 16, 64, "W25X32"⟩,
   ⟨0x3017, 8, 16, 16, 128, "W25X64"⟩,
   ⟨0x4015, 8, 16, 16, 32, "W25Q16"⟩,
   ⟨0x4016, 8, 16, 16, 64, "W25Q32"⟩,
   ⟨0x4017, 8, 16, 16, 128, "W25Q64"⟩,
   ⟨0x6017, 8, 16, 16, 128, "W25Q64DW"⟩,
   ⟨0x4018, 8, 16, 16, 256, "W25Q128"⟩]

def macronixSpiFlashTable : List MacronixParams :=
  [⟨0x2015, 256, 16, 16, 32, "MX25L1605D"⟩,
   ⟨0x2016, 256, 16, 16, 64, "MX25L3205D"⟩,
   ⟨0x5e16, 256, 16, 16, 64, "MX25L3235D"⟩,
   ⟨0x2017, 256, 16, 16, 128, "MX25L6405D"⟩,
   ⟨0x2018, 256, 16, 16, 256, "MX25L12805D"⟩,
   ⟨0x2618, 256, 16, 16, 256, "MX25L12855E"⟩,
   ⟨0x2538, 256, 16, 16, 256, "MX25U12835F"⟩,
   ⟨0x2536, 256, 16, 16, 64, "MX25L3239E"⟩]

/-- `flash.size` of `spi_flash_probe_winbond`. -/
def WinbondParams.size (params : WinbondParams) : ℕ :=
  (1 <<< params.l2PageSize) * params.pagesPerSector * params.sectorsPerBlock * params.nrBlocks

/-- `flash.size` of `spi_flash_probe_macronix`. -/
def MacronixParams.size (params : MacronixParams) : ℕ :=
  params.pageSize * params.pagesPerSector * params.sectorsPerBlock * params.nrBlocks

/-- What stays the same in the loop: the commands of the chip, the length of the chunks and the
data. -/
structure PageWrite where
  wren : UInt8
  pp : UInt8
  pageSize : ℕ
  len : ℕ
  buf : ℕ → UInt8

namespace PageWrite

variable (w : PageWrite) (bus : Bus)

/-- `chunk_len`. -/
def chunkLen (byteAddr actual : ℕ) : ℕ :=
  min (w.len - actual) (w.pageSize - byteAddr)

/-- The bytes of the buffer from `actual` on. -/
def data (actual n : ℕ) : List UInt8 :=
  (List.range n).map fun i => w.buf (actual + i)

/-- The body of the loop for a chunk of `n` bytes: whether the loop is left, the return value, and
the state. -/
def pass (offset actual n : ℕ) (s : State) : Bool × ℤ × State :=
  let enabled := spiFlashCmd bus s w.wren
  if enabled.1 < 0 then (true, enabled)
  else
    let sent := spiFlashCmdWrite bus enabled.2 (w.pp :: addressBytes offset) (w.data actual n)
    if sent.1 < 0 then (true, sent)
    else
      let waited := waitReady bus sent.2 progTimeout
      (decide (waited.1 ≠ 0), waited)

/-- The loop of both functions, with `none` for one that runs out of fuel. A pass that does not
leave the loop has ended with a return value of zero. -/
def loop : ℕ → (offset byteAddr actual : ℕ) → State → Option (ℤ × State)
  | 0, _, _, _, _ => none
  | fuel + 1, offset, byteAddr, actual, s =>
    if actual < w.len then
      let n := w.chunkLen byteAddr actual
      let result := w.pass bus offset actual n s
      if result.1 then some result.2
      else loop fuel ((offset + n) % 2 ^ 32) 0 (actual + n) result.2.2
    else some (0, s)

/-- The whole function. -/
def run (fuel offset : ℕ) (s : State) : Option (ℤ × State) :=
  if bus.claimBus ≠ 0 then some (bus.claimBus, s)
  else w.loop bus fuel offset (offset % w.pageSize) 0 s

end PageWrite

/-- `winbond_write`, with `CMD_W25_WREN` and `CMD_W25_PP`. -/
def winbondWrite (bus : Bus) (params : WinbondParams) (fuel offset len : ℕ) (buf : ℕ → UInt8)
    (s : State) : Option (ℤ × State) :=
  PageWrite.run ⟨0x06, 0x02, min (1 <<< params.l2PageSize) controllerPageLimit, len, buf⟩ bus
    fuel offset s

/-- `macronix_write`, with `CMD_MX25XX_WREN` and `CMD_MX25XX_PP`. -/
def macronixWrite (bus : Bus) (params : MacronixParams) (fuel offset len : ℕ) (buf : ℕ → UInt8)
    (s : State) : Option (ℤ × State) :=
  PageWrite.run ⟨0x06, 0x02, min params.pageSize controllerPageLimit, len, buf⟩ bus
    fuel offset s

/-- One page program command: its address and its data. -/
structure Chunk where
  address : ℕ
  data : List UInt8

/-- What is sent for one chunk: write enable, the page program command, and reads of the status
register until the chip is ready. -/
def Chunk.transfers (delay : ℕ) (c : Chunk) : List (List UInt8) :=
  [0x06] :: (0x02 :: (addressBytes c.address ++ c.data)) ::
    List.replicate (delay + 1) [cmdReadStatus]

/-- A command that stays inside its page. -/
def Chunk.InPage (page : ℕ) (c : Chunk) : Prop :=
  c.address % page + c.data.length ≤ page

/-- The cells of a chunk. -/
def Chunk.cells (c : Chunk) : List (ℕ × UInt8) := cellsFrom c.address c.data

/-- The range has been programmed: every byte of it with the old byte and the new one combined,
by page program commands that stay inside their pages and cover the range in order. -/
structure Programmed (chip : NorFlash) (offset len : ℕ) (buf : ℕ → UInt8) (s s' : State) :
    Prop where
  mem : ∀ a, s'.chip.mem a =
    if offset ≤ a ∧ a < offset + len then s.chip.mem a &&& buf (a - offset) else s.chip.mem a
  commands : ∃ chunks : List Chunk,
    s'.sent = s.sent ++ chunks.flatMap (Chunk.transfers chip.delay) ∧
      (∀ c ∈ chunks, c.InPage chip.page) ∧
      chunks.flatMap Chunk.cells = cellsFrom offset ((List.range len).map buf)

namespace PageWrite

variable {w : PageWrite} {bus : Bus} {s : State} {offset actual byteAddr : ℕ}

@[simp] lemma length_data (n : ℕ) : (w.data actual n).length = n := by
  simp [data]

/-- The data of a longer range starts with that of a shorter one. -/
lemma data_add (n k : ℕ) : w.data actual (n + k) = w.data actual n ++ w.data (actual + n) k := by
  simp only [data, List.range_add, List.map_append, List.map_map]
  congr 1
  apply List.map_congr_left
  intro i _
  simp only [Function.comp, Nat.add_assoc]

/-- One chunk: after write enable the chip programs consecutive cells, and is waited for. -/
lemma pass_spec (hok : bus.Succeeds progTimeout) (hwren : w.wren = 0x06) (hpp : w.pp = 0x02)
    (hidle : s.chip.Idle) {n : ℕ} {c : Chunk} (haddress : c.address = offset)
    (hbytes : c.data = w.data actual n) (hpage : c.InPage bus.chip.page)
    (hsize : c.address + c.data.length ≤ bus.chip.size)
    (haddr : bus.chip.size ≤ 2 ^ 24) (hdata : 0 < c.data.length) :
    w.pass bus offset actual n s =
      (false, 0, ⟨s.chip.written c.cells, s.sent ++ c.transfers bus.chip.delay⟩) := by
  obtain ⟨hready, hplain⟩ := hidle
  have hcells : bus.chip.pageCells (c.address % 2 ^ 24) c.data = c.cells := by
    rw [Nat.mod_eq_of_lt (by omega)]
    exact pageCells_eq hpage hsize
  have henabled : spiFlashCmd bus s w.wren =
      (0, ⟨{ s.chip with wel := true }, s.sent ++ [[0x06]]⟩) := by
    rw [spiFlashCmd, spiXfer_eq hok, hwren, decode_writeEnable]
    simp only [NorFlash.execute, hready, if_true]
  have hsent : spiFlashCmdWrite bus ⟨{ s.chip with wel := true }, s.sent ++ [[0x06]]⟩
      (w.pp :: addressBytes offset) (w.data actual n) =
      (0, ⟨{ (s.chip.programmed c.cells bus.chip.delay) with wel := false },
        s.sent ++ [[0x06]] ++ [0x02 :: (addressBytes offset ++ w.data actual n)]⟩) := by
    rw [spiFlashCmdWrite, spiXfer_eq hok, List.cons_append, hpp, decode_program_bytes, ← haddress,
      ← hbytes]
    simp only [NorFlash.execute, NorFlash.State.programmed, hready, hplain, and_self, if_true,
      hcells]
  simp only [pass, henabled, hsent, lt_irrefl, if_false]
  rw [waitReady_eq hok hok.ready]
  simp only [ne_eq, not_true_eq_false, decide_false, Chunk.transfers, haddress, hbytes,
    List.append_assoc, List.cons_append, List.nil_append]
  rfl

/-- A chunk up to the next multiple of a divisor of the page size stays inside its page. -/
lemma page_room {page size n : ℕ} (hdvd : size ∣ page) (hpage : 0 < page) (hpos : 0 < size)
    (hn : n ≤ size - offset % size) : offset % page + n ≤ page := by
  obtain ⟨k, rfl⟩ := hdvd
  have hmod : offset % (size * k) % size = offset % size :=
    Nat.mod_mod_of_dvd offset (Dvd.intro k rfl)
  have hdiv : offset % (size * k) / size < k := by
    apply Nat.div_lt_of_lt_mul
    exact Nat.mod_lt _ hpage
  have hsplit := Nat.div_add_mod (offset % (size * k)) size
  have hlt := Nat.mod_lt offset hpos
  have hnext : size * (offset % (size * k) / size + 1) ≤ size * k := Nat.mul_le_mul_left _ hdiv
  rw [Nat.mul_succ] at hnext
  omega

/-- Behind such a chunk the offset is a multiple. -/
lemma page_next {size : ℕ} (hpos : 0 < size) : (offset + (size - offset % size)) % size = 0 := by
  have hlt := Nat.mod_lt offset hpos
  have hsplit := Nat.div_add_mod offset size
  have hnext : offset + (size - offset % size) = size * (offset / size + 1) := by
    rw [Nat.mul_succ]
    omega
  rw [hnext, Nat.mul_mod_right]

section

variable (hok : bus.Succeeds progTimeout) (hwren : w.wren = 0x06) (hpp : w.pp = 0x02)
  (hpos : 0 < w.pageSize) (hpage : 0 < bus.chip.page) (hdvd : w.pageSize ∣ bus.chip.page)
  (haddr : bus.chip.size ≤ 2 ^ 24)
include hok hwren hpp hpos hpage hdvd haddr

/-- The loop programs what is left of the buffer. A pass keeps that the residue is zero unless
the chunk is the first one. -/
lemma loop_spec (fuel offset byteAddr actual : ℕ) (s : State) (hidle : s.chip.Idle)
    (hle : actual ≤ w.len)
    (hsize : offset + (w.len - actual) ≤ bus.chip.size)
    (hbyte : actual < w.len → byteAddr = offset % w.pageSize)
    (hfuel : w.len - actual < fuel) :
    ∃ (s' : State) (chunks : List Chunk), w.loop bus fuel offset byteAddr actual s = some (0, s') ∧
      s'.sent = s.sent ++ chunks.flatMap (Chunk.transfers bus.chip.delay) ∧
      (∀ c ∈ chunks, c.InPage bus.chip.page) ∧
      chunks.flatMap Chunk.cells = cellsFrom offset (w.data actual (w.len - actual)) ∧
      s'.chip.mem = (chunks.flatMap Chunk.cells).foldl burn s.chip.mem := by
  induction fuel generalizing offset byteAddr actual s with
  | zero => omega
  | succ fuel ih =>
    by_cases hmore : actual < w.len
    · rw [hbyte hmore]
      have hlt := Nat.mod_lt offset hpos
      obtain ⟨n, hn⟩ : ∃ n, n = w.chunkLen (offset % w.pageSize) actual := ⟨_, rfl⟩
      have hn₁ : n ≤ w.len - actual := hn ▸ Nat.min_le_left _ _
      have hn₂ : n ≤ w.pageSize - offset % w.pageSize := hn ▸ Nat.min_le_right _ _
      have hn₀ : 0 < n := by
        rw [hn, chunkLen]
        exact Nat.lt_min.2 ⟨by omega, by omega⟩
      obtain ⟨c, hc⟩ : ∃ c : Chunk, c = ⟨offset, w.data actual n⟩ := ⟨_, rfl⟩
      have hlen : c.data.length = n := by rw [hc, length_data]
      have hin : c.InPage bus.chip.page := by
        rw [Chunk.InPage, hlen, hc]
        exact page_room hdvd hpage hpos hn₂
      have haddress : c.address = offset := by rw [hc]
      have hbytes : c.data = w.data actual n := by rw [hc]
      have hpass := pass_spec hok hwren hpp hidle haddress hbytes hin (by omega) haddr (by omega)
      -- behind the chunk the rest of the buffer is left
      have hrest := ih (offset + n) 0 (actual + n)
        ⟨s.chip.written c.cells, s.sent ++ c.transfers bus.chip.delay⟩ hidle.written (by omega)
        (by omega) (fun h => by
          have hfull : n = w.pageSize - offset % w.pageSize := by
            rw [chunkLen] at hn
            omega
          rw [hfull]
          exact (page_next hpos).symm) (by omega)
      obtain ⟨s', chunks, hrun, hsent, hchunks, hcells, hmem⟩ := hrest
      refine ⟨s', c :: chunks, ?_, ?_, ?_, ?_, ?_⟩
      · have hwrap : (offset + n) % 2 ^ 32 = offset + n := Nat.mod_eq_of_lt (by omega)
        rw [loop, if_pos hmore]
        simp only [← hn, hpass, hwrap]
        exact hrun
      · rw [hsent, List.flatMap_cons, List.append_assoc]
      · intro d hd
        rcases List.mem_cons.1 hd with rfl | hd
        · exact hin
        · exact hchunks d hd
      · have hsum : w.len - actual = n + (w.len - (actual + n)) := by omega
        rw [List.flatMap_cons, hcells, hsum, data_add, cellsFrom_append, length_data, Chunk.cells,
          haddress, hbytes]
      · rw [hmem, List.flatMap_cons, List.foldl_append]
        rfl
    · refine ⟨s, [], ?_, by simp, by simp, ?_, by simp⟩
      · simp only [loop, hmore, if_false]
      · have hnone : w.len - actual = 0 := by omega
        simp [hnone, data]

/-- The whole function programs the whole buffer. -/
lemma run_spec (fuel : ℕ) (hidle : s.chip.Idle) (hsize : offset + w.len ≤ bus.chip.size)
    (hfuel : w.len < fuel) :
    ∃ s', w.run bus fuel offset s = some (0, s') ∧
      Programmed bus.chip offset w.len w.buf s s' := by
  obtain ⟨s', chunks, hrun, hsent, hchunks, hcells, hmem⟩ :=
    loop_spec hok hwren hpp hpos hpage hdvd haddr fuel offset _ 0 s hidle (Nat.zero_le _)
      (by simpa using hsize) (fun _ => rfl) (by simpa using hfuel)
  have hdata : w.data 0 (w.len - 0) = (List.range w.len).map w.buf := by
    simp [data]
  rw [hdata] at hcells
  refine ⟨s', ?_, fun a => ?_, chunks, hsent, hchunks, hcells⟩
  · rw [run, if_neg (by simp [hok.claimed])]
    exact hrun
  · rw [hmem, hcells, burn_cellsFrom]
    by_cases ha : offset ≤ a
    · by_cases hb : a < offset + w.len
      · have hidx : a - offset < w.len := by omega
        simp [ha, hb, hidx]
      · have hidx : ¬ a - offset < w.len := by omega
        simp [hb, hidx]
    · by_cases hidx : a - offset < w.len <;> simp [ha, hidx]

end

end PageWrite

/-- Every chip of the table has whole pages of the controller, and three address bytes reach all
of it. -/
lemma winbond_table : ∀ params ∈ winbondSpiFlashTable,
    1 <<< params.l2PageSize = 256 ∧ params.size ≤ 2 ^ 24 := by
  simp [winbondSpiFlashTable, WinbondParams.size]

lemma macronix_table : ∀ params ∈ macronixSpiFlashTable,
    params.pageSize = 256 ∧ params.size ≤ 2 ^ 24 := by
  simp [macronixSpiFlashTable, MacronixParams.size]

/-- On every chip of the tables both functions program the whole range, with page program commands
that stay inside their pages, each behind a write enable, and nothing else. -/
theorem pageProgram_writes (bus : Bus) (s : State) (offset len : ℕ) (buf : ℕ → UInt8)
    (hok : bus.Succeeds progTimeout) (hidle : s.chip.Idle) (hrange : offset + len ≤ bus.chip.size) :
    (∀ params ∈ winbondSpiFlashTable, bus.chip.page = 1 <<< params.l2PageSize →
      bus.chip.size = params.size → ∀ fuel, len < fuel →
        ∃ s', winbondWrite bus params fuel offset len buf s = some (0, s') ∧
          Programmed bus.chip offset len buf s s') ∧
      ∀ params ∈ macronixSpiFlashTable, bus.chip.page = params.pageSize →
        bus.chip.size = params.size → ∀ fuel, len < fuel →
          ∃ s', macronixWrite bus params fuel offset len buf s = some (0, s') ∧
            Programmed bus.chip offset len buf s s' := by
  constructor
  · intro params hparams hpage hsize fuel hfuel
    obtain ⟨htable, hbytes⟩ := winbond_table params hparams
    rw [htable] at hpage
    have hlimit : min (1 <<< params.l2PageSize) controllerPageLimit = 64 := by
      rw [htable]
      rfl
    have hdvd : 64 ∣ bus.chip.page := by
      rw [hpage]
      exact ⟨4, rfl⟩
    rw [winbondWrite, hlimit]
    exact PageWrite.run_spec hok rfl rfl (by dsimp only; omega) (by omega) hdvd (by omega) fuel
      hidle hrange hfuel
  · intro params hparams hpage hsize fuel hfuel
    obtain ⟨htable, hbytes⟩ := macronix_table params hparams
    rw [htable] at hpage
    have hlimit : min params.pageSize controllerPageLimit = 64 := by
      rw [htable]
      rfl
    have hdvd : 64 ∣ bus.chip.page := by
      rw [hpage]
      exact ⟨4, rfl⟩
    rw [macronixWrite, hlimit]
    exact PageWrite.run_spec hok rfl rfl (by dsimp only; omega) (by omega) hdvd (by omega) fuel
      hidle hrange hfuel

/-- An erased chip of the smallest size. -/
def erasedBus : Bus := ⟨⟨2097152, 256, 3⟩, 0, fun _ => 0⟩

/-- Ten bytes across the end of a page. -/
theorem pageProgram_writes_across :
    (∃ s', winbondWrite erasedBus ⟨0x3015, 8, 16, 16, 32, "W25X16"⟩ 11 250 10 UInt8.ofNat
        ⟨⟨fun _ => 0xFF, false, 0, none, []⟩, []⟩ = some (0, s') ∧
      Programmed erasedBus.chip 250 10 UInt8.ofNat ⟨⟨fun _ => 0xFF, false, 0, none, []⟩, []⟩ s') ∧
      ∃ s', macronixWrite erasedBus ⟨0x2015, 256, 16, 16, 32, "MX25L1605D"⟩ 11 250 10 UInt8.ofNat
        ⟨⟨fun _ => 0xFF, false, 0, none, []⟩, []⟩ = some (0, s') ∧
      Programmed erasedBus.chip 250 10 UInt8.ofNat ⟨⟨fun _ => 0xFF, false, 0, none, []⟩, []⟩ s' := by
  have hwrites := pageProgram_writes erasedBus ⟨⟨fun _ => 0xFF, false, 0, none, []⟩, []⟩ 250 10
    UInt8.ofNat ⟨rfl, fun _ => rfl, by decide⟩ ⟨rfl, rfl⟩ (by decide)
  exact ⟨hwrites.1 _ List.mem_cons_self rfl rfl 11 (by omega),
    hwrites.2 _ List.mem_cons_self rfl rfl 11 (by omega)⟩

end ApuBios.Spi
