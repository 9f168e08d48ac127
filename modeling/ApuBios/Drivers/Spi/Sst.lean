import ApuBios.Drivers.Spi.Flash
import ApuBios.Library.Word

/-!
# Writing to SST chips

`sst_write` programs a leading odd byte and a trailing byte on their own, and the words between
them with automatic increment of the address.
-/

namespace ApuBios.Spi

open NorFlash

/-- The fields of `struct sst_spi_flash_params`. -/
structure SstParams where
  idcode1 : ℕ
  nrSectors : ℕ
  name : String

def sstSpiFlashTable : List SstParams :=
  [⟨0x8d, 128, "SST25VF040B"⟩,
   ⟨0x8e, 256, "SST25VF080B"⟩,
   ⟨0x41, 512, "SST25VF016B"⟩,
   ⟨0x4a, 1024, "SST25VF032B"⟩,
   ⟨0x4b, 2048, "SST25VF064C"⟩,
   ⟨0x01, 16, "SST25WF512"⟩,
   ⟨0x02, 32, "SST25WF010"⟩,
   ⟨0x03, 64, "SST25WF020"⟩,
   ⟨0x04, 128, "SST25WF040"⟩]

/-- `flash.size` of `spi_flash_probe_sst`: sectors of `SST_SECTOR_SIZE`. -/
def SstParams.size (params : SstParams) : ℕ := 4 * 1024 * params.nrSectors

/-- `CMD_SST_WREN`. -/
def cmdSstWren : UInt8 := 0x06

/-- `CMD_SST_WRDI`. -/
def cmdSstWrdi : UInt8 := 0x04

/-- `CMD_SST_RDSR`. -/
def cmdSstRdsr : UInt8 := 0x05

/-- `CMD_SST_BP`. -/
def cmdSstBp : UInt8 := 0x02

/-- `CMD_SST_AAI_WP`. -/
def cmdSstAaiWp : UInt8 := 0xAD

/-- Why a run has no result. -/
inductive Stop
  /-- A byte outside the buffer is read. -/
  | outside
  /-- The fuel is used up. -/
  | fuel
  deriving DecidableEq

variable (bus : Bus)

/-- The read of the status register in the arguments of a message, by `spi_w8r8`. -/
def sstLogStatus (s : State) : State := (spiXfer bus s [cmdSstRdsr, 0]).2

/-- `sst_enable_writing`. -/
def sstEnableWriting (s : State) : ℤ × State := spiFlashCmd bus s cmdSstWren

/-- `sst_disable_writing`. -/
def sstDisableWriting (s : State) : ℤ × State := spiFlashCmd bus s cmdSstWrdi

/-- `sst_byte_write`. -/
def sstByteWrite (s : State) (offset : ℕ) (b : UInt8) : ℤ × State :=
  let enabled := sstEnableWriting bus (sstLogStatus bus s)
  if enabled.1 ≠ 0 then enabled
  else
    let sent := spiFlashCmdWrite bus enabled.2 (cmdSstBp :: addressBytes offset) [b]
    if sent.1 ≠ 0 then sent else waitReady bus sent.2 progTimeout

/-- The body of the loop: one word behind the bytes of the command that are sent with it. -/
def sstWordWrite (s : State) (cmd : List UInt8) (d₀ d₁ : UInt8) : ℤ × State :=
  let sent := spiFlashCmdWrite bus (sstLogStatus bus s) cmd [d₀, d₁]
  if sent.1 ≠ 0 then sent else waitReady bus sent.2 progTimeout

/-- What the loop leaves in `ret`, `offset` and `actual`, and the state. -/
structure Words where
  ret : ℤ
  offset : ℕ
  actual : ℕ
  state : State

/-- The loop over the words of a buffer. `cmd` holds the first `cmd_len` bytes of the command, of
which only the opcode is left after the first pass. -/
def sstWordLoop (buf : List UInt8) :
    ℕ → (cmd : List UInt8) → (offset actual : ℕ) → State → Except Stop Words
  | 0, _, _, _, _ => .error .fuel
  | fuel + 1, cmd, offset, actual, s =>
    if actual < Word.sub 32 buf.length 1 then
      match buf[actual]?, buf[actual + 1]? with
      | some d₀, some d₁ =>
        let result := sstWordWrite bus s cmd d₀ d₁
        if result.1 ≠ 0 then .ok ⟨result.1, offset, actual, result.2⟩
        else sstWordLoop buf fuel (cmd.take 1) (Word.add 32 offset 2) (Word.add 32 actual 2) result.2
      | _, _ => .error .outside
    else .ok ⟨0, offset, actual, s⟩

/-- A single byte of the buffer, if the condition asks for it. -/
def sstSingle (wanted : Prop) [Decidable wanted] (buf : List UInt8) (offset actual : ℕ)
    (s : State) : Except Stop (ℤ × State) :=
  if wanted then
    match buf[actual]? with
    | some b => .ok (sstByteWrite bus s offset b)
    | none => .error .outside
  else .ok (0, s)

/-- What follows the loop: the mode is left, and a trailing byte is written. -/
def sstFinish (buf : List UInt8) (words : Words) : Except Stop (ℤ × State) :=
  if words.ret ≠ 0 then .ok (words.ret, words.state)
  else
    let disabled := sstDisableWriting bus words.state
    if disabled.1 ≠ 0 then .ok disabled
    else sstSingle bus (words.actual ≠ buf.length) buf words.offset words.actual disabled.2

/-- `sst_write` of a buffer that ends with its last byte. -/
def sstWrite (fuel offset : ℕ) (buf : List UInt8) (s : State) : Except Stop (ℤ × State) :=
  if bus.claimBus ≠ 0 then .ok (bus.claimBus, s)
  else
    let actual := offset % 2
    (sstSingle bus (actual ≠ 0) buf offset 0 s).bind fun first =>
      if first.1 ≠ 0 then .ok first
      else
        let offset := Word.add 32 offset actual
        let enabled := sstEnableWriting bus first.2
        if enabled.1 ≠ 0 then .ok enabled
        else
          (sstWordLoop bus buf fuel (cmdSstAaiWp :: addressBytes offset) offset actual
            enabled.2).bind (sstFinish bus buf)

/-- The bytes of the buffer, and no others, have been programmed at their addresses, and write
mode is off. -/
structure SstWritten (offset : ℕ) (buf : List UInt8) (s s' : State) : Prop where
  cells : s'.chip.log = s.chip.log ++ cellsFrom offset buf
  mem : s'.chip.mem = (cellsFrom offset buf).foldl burn s.chip.mem
  disabled : s'.chip.wel = false ∧ s'.chip.aai = none

/-- A chip of the kind the driver is for. -/
structure IsSst (chip : NorFlash) : Prop where
  page : chip.page = 1
  even : 2 ∣ chip.size
  pos : 0 < chip.size
  addressed : chip.size ≤ 2 ^ 24

/-- The chips of the table are of this kind. -/
lemma sst_table {chip : NorFlash} (hpage : chip.page = 1) :
    ∀ params ∈ sstSpiFlashTable, chip.size = params.size → IsSst chip := by
  intro params hparams hsize
  have htable : ∀ params ∈ sstSpiFlashTable,
      2 ∣ params.size ∧ 0 < params.size ∧ params.size ≤ 2 ^ 24 := by
    simp [sstSpiFlashTable, SstParams.size]
  obtain ⟨heven, hpos, hle⟩ := htable params hparams
  exact ⟨hpage, hsize ▸ heven, hsize ▸ hpos, hsize ▸ hle⟩

variable {bus} {s : State} {offset actual : ℕ} {buf : List UInt8} {b d₀ d₁ : UInt8}

/-! ### Progress -/

/-- Cells have moved from what is left of the buffer to what has been programmed. -/
structure Progress (buf : List UInt8) (c : NorFlash.State) (offset actual : ℕ)
    (c' : NorFlash.State) (offset' actual' : ℕ) : Prop where
  log : c'.log ++ cellsFrom offset' (buf.drop actual') =
    c.log ++ cellsFrom offset (buf.drop actual)
  mem : (cellsFrom offset' (buf.drop actual')).foldl burn c'.mem =
    (cellsFrom offset (buf.drop actual)).foldl burn c.mem

lemma Progress.refl {c : NorFlash.State} : Progress buf c offset actual c offset actual :=
  ⟨rfl, rfl⟩

lemma Progress.trans {c c' c'' : NorFlash.State} {offset' actual' offset'' actual'' : ℕ}
    (h : Progress buf c offset actual c' offset' actual')
    (h' : Progress buf c' offset' actual' c'' offset'' actual'') :
    Progress buf c offset actual c'' offset'' actual'' :=
  ⟨h'.log.trans h.log, h'.mem.trans h.mem⟩

/-- Programming the next bytes of the buffer. -/
lemma Progress.of_cells {c c' : NorFlash.State} (data : List UInt8)
    (hdata : buf.drop actual = data ++ buf.drop (actual + data.length))
    (hlog : c'.log = c.log ++ cellsFrom offset data)
    (hmem : c'.mem = (cellsFrom offset data).foldl burn c.mem) :
    Progress buf c offset actual c' (offset + data.length) (actual + data.length) := by
  constructor
  · rw [hlog, hdata, cellsFrom_append, List.append_assoc]
  · rw [hmem, hdata, cellsFrom_append, List.foldl_append]

/-- When nothing is left, everything has been programmed. -/
lemma Progress.all {c c' : NorFlash.State} {offset' : ℕ}
    (h : Progress buf c offset 0 c' offset' buf.length) :
    c'.log = c.log ++ cellsFrom offset buf ∧
      c'.mem = (cellsFrom offset buf).foldl burn c.mem := by
  obtain ⟨hlog, hmem⟩ := h
  rw [List.drop_length, cellsFrom_nil, List.append_nil, List.drop_zero] at hlog
  rw [List.drop_length, cellsFrom_nil, List.foldl_nil, List.drop_zero] at hmem
  exact ⟨hlog, hmem⟩

lemma drop_of_getElem? (h : buf[actual]? = some b) :
    buf.drop actual = [b] ++ buf.drop (actual + 1) := by
  obtain ⟨hlt, rfl⟩ := List.getElem?_eq_some_iff.1 h
  exact List.drop_eq_getElem_cons hlt

/-! ### Single bytes -/

lemma sstLogStatus_chip (hok : bus.Succeeds progTimeout) (hready : s.chip.busy = 0) :
    (sstLogStatus bus s).chip = s.chip := by
  rw [sstLogStatus, spiXfer_eq hok]
  have hdecode : decode [cmdSstRdsr, 0] = .readStatus := rfl
  have hsame : s.chip.busy - 1 = s.chip.busy := by rw [hready]
  simp only [hdecode, NorFlash.execute, hsame]

lemma sstByteWrite_eq (hok : bus.Succeeds progTimeout) (hsst : IsSst bus.chip)
    (hidle : s.chip.Idle) (hoff : offset < bus.chip.size) :
    ∃ sent, sstByteWrite bus s offset b = (0, ⟨s.chip.written [(offset, b)], sent⟩) := by
  obtain ⟨hready, hplain⟩ := hidle
  have haddr := hsst.addressed
  have hcells : bus.chip.pageCells (offset % 2 ^ 24) [b] = [(offset, b)] := by
    rw [Nat.mod_eq_of_lt (by omega)]
    exact pageCells_eq (by rw [hsst.page, Nat.mod_one]; rfl) hoff
  obtain ⟨log, hlog⟩ : ∃ log, sstLogStatus bus s = ⟨s.chip, log⟩ := by
    refine ⟨(sstLogStatus bus s).sent, ?_⟩
    rw [← sstLogStatus_chip hok hready]
  have henabled : sstEnableWriting bus ⟨s.chip, log⟩ =
      (0, ⟨{ s.chip with wel := true }, log ++ [[cmdSstWren]]⟩) := by
    rw [sstEnableWriting, spiFlashCmd, spiXfer_eq hok, cmdSstWren, decode_writeEnable]
    simp only [NorFlash.execute, hready, if_true]
  have hsent : spiFlashCmdWrite bus ⟨{ s.chip with wel := true }, log ++ [[cmdSstWren]]⟩
      (cmdSstBp :: addressBytes offset) [b] =
      (0, ⟨{ (s.chip.programmed [(offset, b)] bus.chip.delay) with wel := false },
        log ++ [[cmdSstWren]] ++ [cmdSstBp :: (addressBytes offset ++ [b])]⟩) := by
    rw [spiFlashCmdWrite, spiXfer_eq hok, List.cons_append]
    simp only [cmdSstBp, decode_program_bytes]
    simp only [NorFlash.execute, NorFlash.State.programmed, hready, hplain, and_self, if_true,
      hcells]
  refine ⟨log ++ [[cmdSstWren]] ++ [cmdSstBp :: (addressBytes offset ++ [b])]
    ++ List.replicate (bus.chip.delay + 1) [cmdReadStatus], ?_⟩
  simp only [sstByteWrite, hlog, henabled, hsent, ne_eq, not_true_eq_false, if_false]
  rw [waitReady_eq hok hok.ready]
  rfl

/-- A single byte of the buffer, if it is wanted. -/
lemma sstSingle_eq (buf : List UInt8) (offset actual : ℕ) (s : State)
    (hok : bus.Succeeds progTimeout) (hsst : IsSst bus.chip) (hidle : s.chip.Idle)
    (hactual : actual < buf.length) (hoff : offset < bus.chip.size) :
    ∃ s', sstSingle bus True buf offset actual s = .ok (0, s') ∧ s'.chip.Idle ∧
      s'.chip.wel = false ∧ Progress buf s.chip offset actual s'.chip (offset + 1) (actual + 1) := by
  obtain ⟨sent, hbyte⟩ := sstByteWrite_eq (b := buf[actual]) hok hsst hidle hoff
  have hget : buf[actual]? = some buf[actual] := List.getElem?_eq_getElem hactual
  refine ⟨⟨s.chip.written [(offset, buf[actual])], sent⟩, ?_, hidle.written, rfl, ?_⟩
  · simp only [sstSingle, if_true, hget, hbyte]
  · exact Progress.of_cells [buf[actual]] (drop_of_getElem? hget) rfl rfl

/-! ### Words -/

/-- The chip expects the word at `offset` next: with its address if it is the first one, else in
automatic increment unless the end of the chip has been reached. -/
def AtWord (chip : NorFlash) (first : Prop) (offset : ℕ) (c : NorFlash.State) : Prop :=
  c.busy = 0 ∧ (offset < chip.size → c.wel = true ∧
    (first → c.aai = none) ∧ (¬ first → c.aai = some offset))

/-- The bytes of the command in front of the word at `offset`. -/
def WordCommand (first : Prop) (offset : ℕ) (cmd : List UInt8) : Prop :=
  (first → cmd = cmdSstAaiWp :: addressBytes offset) ∧ (¬ first → cmd = [cmdSstAaiWp])

lemma decode_wordFirst_bytes :
    decode (cmdSstAaiWp :: addressBytes offset ++ [d₀, d₁]) =
      .wordFirst (offset % 2 ^ 24) d₀ d₁ := by
  rw [addressBytes, Nat.shiftRight_eq_div_pow, Nat.shiftRight_eq_div_pow]
  simp only [List.cons_append, List.nil_append, cmdSstAaiWp, decode_wordFirst]
  exact congrArg (Command.wordFirst · d₀ d₁) (address_ofNat offset)

/-- One word inside the chip. -/
lemma programWord_eq (d₀ d₁ : UInt8) (heven : 2 ∣ offset)
    (hoff : offset + 2 ≤ bus.chip.size) (c : NorFlash.State) (hwel : c.wel = true) :
    ∃ c' : NorFlash.State, bus.chip.programWord c offset d₀ d₁ = { c' with busy := bus.chip.delay } ∧
      AtWord bus.chip False (offset + 2) { c' with busy := 0 } ∧
      c'.log = c.log ++ cellsFrom offset [d₀, d₁] ∧
      c'.mem = (cellsFrom offset [d₀, d₁]).foldl burn c.mem := by
  have hbase : offset - offset % 2 = offset := by
    rw [Nat.mod_eq_zero_of_dvd heven, Nat.sub_zero]
  have hcells : bus.chip.wordCells offset d₀ d₁ = cellsFrom offset [d₀, d₁] := by
    rw [wordCells, Nat.mod_eq_of_lt (by omega), Nat.mod_eq_of_lt (by omega)]
    rfl
  have hnot : ¬ False := not_false
  unfold programWord
  simp only [hbase, hcells]
  by_cases hmore : offset + 2 < bus.chip.size
  · rw [if_pos hmore]
    refine ⟨{ c.programmed (cellsFrom offset [d₀, d₁]) 0 with aai := some (offset + 2) }, rfl,
      ⟨rfl, fun _ => ⟨hwel, fun h => h.elim, fun _ => rfl⟩⟩, rfl, rfl⟩
  · rw [if_neg hmore]
    refine ⟨{ c.programmed (cellsFrom offset [d₀, d₁]) 0 with aai := none, wel := false }, rfl,
      ⟨rfl, fun h => absurd h hmore⟩, rfl, rfl⟩

lemma sstWordWrite_eq (d₀ d₁ : UInt8) (hok : bus.Succeeds progTimeout) (hsst : IsSst bus.chip)
    (heven : 2 ∣ offset) (hoff : offset + 2 ≤ bus.chip.size) {first : Prop} {cmd : List UInt8}
    (hat : AtWord bus.chip first offset s.chip) (hcmd : WordCommand first offset cmd) :
    ∃ s', sstWordWrite bus s cmd d₀ d₁ = (0, s') ∧
      AtWord bus.chip False (offset + 2) s'.chip ∧
      s'.chip.log = s.chip.log ++ cellsFrom offset [d₀, d₁] ∧
      s'.chip.mem = (cellsFrom offset [d₀, d₁]).foldl burn s.chip.mem := by
  obtain ⟨hready, hmode⟩ := hat
  obtain ⟨hwel, hfirst, hnext⟩ := hmode (by omega)
  have haddr := hsst.addressed
  obtain ⟨c', hword, hat', hlog', hmem'⟩ := programWord_eq d₀ d₁ heven hoff s.chip hwel
  obtain ⟨log, hlog⟩ : ∃ log, sstLogStatus bus s = ⟨s.chip, log⟩ := by
    refine ⟨(sstLogStatus bus s).sent, ?_⟩
    rw [← sstLogStatus_chip hok hready]
  have hexecute : bus.chip.execute s.chip (decode (cmd ++ [d₀, d₁])) =
      { c' with busy := bus.chip.delay } := by
    by_cases hf : first
    · rw [hcmd.1 hf, decode_wordFirst_bytes, Nat.mod_eq_of_lt (by omega), ← hword]
      simp only [NorFlash.execute, hready, hwel, hfirst hf, and_self, if_true]
    · rw [hcmd.2 hf, ← hword]
      have hdecode : decode ([cmdSstAaiWp] ++ [d₀, d₁]) = .wordNext d₀ d₁ := rfl
      simp only [hdecode, NorFlash.execute, hnext hf, hready, hwel, and_self, if_true]
  have hsent : spiFlashCmdWrite bus ⟨s.chip, log⟩ cmd [d₀, d₁] =
      (0, ⟨{ c' with busy := bus.chip.delay }, log ++ [cmd ++ [d₀, d₁]]⟩) := by
    rw [spiFlashCmdWrite, spiXfer_eq hok, hexecute]
  refine ⟨⟨{ c' with busy := 0 }, log ++ [cmd ++ [d₀, d₁]] ++
    List.replicate (bus.chip.delay + 1) [cmdReadStatus]⟩, ?_, hat', hlog', hmem'⟩
  simp only [sstWordWrite, hlog, hsent, ne_eq, not_true_eq_false, if_false]
  rw [waitReady_eq hok hok.ready]

/-- The loop programs all whole words that are left, and stops in front of a last byte. -/
lemma sstWordLoop_eq (hok : bus.Succeeds progTimeout) (hsst : IsSst bus.chip)
    (hlen : buf.length < 2 ^ 32) (hsome : 0 < buf.length) (fuel : ℕ) (first : Prop)
    (cmd : List UInt8) (offset actual : ℕ) (s : State) (heven : 2 ∣ offset)
    (hactual : actual ≤ buf.length)
    (hoff : offset + (buf.length - actual) ≤ bus.chip.size)
    (hat : AtWord bus.chip first offset s.chip) (hcmd : WordCommand first offset cmd)
    (hfuel : buf.length - actual < fuel) :
    ∃ words, sstWordLoop bus buf fuel cmd offset actual s = .ok words ∧ words.ret = 0 ∧
      words.state.chip.busy = 0 ∧
      (words.actual = buf.length ∨
        words.actual + 1 = buf.length ∧ words.offset < bus.chip.size) ∧
      Progress buf s.chip offset actual words.state.chip words.offset words.actual := by
  have haddr := hsst.addressed
  have hlast : Word.sub 32 buf.length 1 = buf.length - 1 := by
    rw [Word.sub]
    omega
  induction fuel generalizing offset actual s first cmd with
  | zero => omega
  | succ fuel ih =>
    unfold sstWordLoop
    rw [hlast]
    by_cases hmore : actual < buf.length - 1
    · rw [if_pos hmore]
      have h₀ : buf[actual]? = some buf[actual] := List.getElem?_eq_getElem (by omega)
      have h₁ : buf[actual + 1]? = some buf[actual + 1] := List.getElem?_eq_getElem (by omega)
      obtain ⟨s', hword, hat', hlog, hmem⟩ := sstWordWrite_eq buf[actual] buf[actual + 1]
        hok hsst heven (by omega) hat hcmd
      have hcmd' : WordCommand False (offset + 2) (cmd.take 1) := by
        refine ⟨fun h => h.elim, fun _ => ?_⟩
        by_cases hf : first
        · rw [hcmd.1 hf]
          rfl
        · rw [hcmd.2 hf]
          rfl
      have hdata : buf.drop actual =
          [buf[actual], buf[actual + 1]] ++ buf.drop (actual + 2) := by
        rw [drop_of_getElem? h₀, drop_of_getElem? h₁]
        rfl
      have hnext : Word.add 32 offset 2 = offset + 2 ∧ Word.add 32 actual 2 = actual + 2 := by
        rw [Word.add, Word.add]
        omega
      obtain ⟨words, hrun, hret, hbusy, hend, hprogress⟩ := ih False (cmd.take 1)
        (offset + 2) (actual + 2) s' (by omega) (by omega) (by omega) hat' hcmd' (by omega)
      refine ⟨words, ?_, hret, hbusy, hend,
        (Progress.of_cells [buf[actual], buf[actual + 1]] hdata hlog hmem).trans
          hprogress⟩
      simp only [h₀, h₁, hword, ne_eq, not_true_eq_false, if_false, hnext]
      exact hrun
    · rw [if_neg hmore]
      refine ⟨_, rfl, rfl, hat.1, ?_, .refl⟩
      dsimp only
      by_cases hall : actual = buf.length
      · exact Or.inl hall
      · exact Or.inr ⟨by omega, by omega⟩

/-- Leaving the mode. -/
lemma sstDisableWriting_eq (hok : bus.Succeeds progTimeout) (hready : s.chip.busy = 0) :
    ∃ sent, sstDisableWriting bus s = (0, ⟨{ s.chip with wel := false, aai := none }, sent⟩) := by
  refine ⟨s.sent ++ [[cmdSstWrdi]], ?_⟩
  rw [sstDisableWriting, spiFlashCmd, spiXfer_eq hok, cmdSstWrdi, decode_writeDisable]
  simp only [NorFlash.execute, hready, if_true]

/-- What follows the loop programs the last byte if one is left. -/
lemma sstFinish_eq (hok : bus.Succeeds progTimeout) (hsst : IsSst bus.chip) {words : Words}
    (hret : words.ret = 0) (hbusy : words.state.chip.busy = 0)
    (hend : words.actual = buf.length ∨
      words.actual + 1 = buf.length ∧ words.offset < bus.chip.size) :
    ∃ s' offset', sstFinish bus buf words = .ok (0, s') ∧ s'.chip.wel = false ∧
      s'.chip.aai = none ∧
      Progress buf words.state.chip words.offset words.actual s'.chip offset' buf.length := by
  obtain ⟨sent, hdisabled⟩ := sstDisableWriting_eq hok hbusy
  have hfinish : sstFinish bus buf words =
      sstSingle bus (words.actual ≠ buf.length) buf words.offset words.actual
        ⟨{ words.state.chip with wel := false, aai := none }, sent⟩ := by
    rw [sstFinish, if_neg (by simp [hret])]
    simp only [hdisabled, ne_eq, not_true_eq_false, if_false]
  rw [hfinish]
  rcases hend with hall | ⟨hone, hoff⟩
  · refine ⟨⟨{ words.state.chip with wel := false, aai := none }, sent⟩, words.offset, ?_, rfl, rfl,
      ?_⟩
    · rw [sstSingle, if_neg (not_not.2 hall)]
    · rw [← hall]
      exact ⟨rfl, rfl⟩
  · obtain ⟨s', hsingle, hidle, hwel, hprogress⟩ := sstSingle_eq buf
      words.offset words.actual ⟨{ words.state.chip with wel := false, aai := none }, sent⟩
      hok hsst ⟨hbusy, rfl⟩ (by omega) hoff
    have hwanted : words.actual ≠ buf.length := by omega
    refine ⟨s', words.offset + 1, ?_, hwel, hidle.plain, ?_⟩
    · rw [← hsingle, sstSingle, sstSingle, if_pos hwanted, if_pos trivial]
    · rw [← hone]
      exact ⟨hprogress.log, hprogress.mem⟩

/-- A buffer that is not empty is programmed, if the range lies inside the chip. -/
lemma sstWrite_eq (hok : bus.Succeeds progTimeout) (hsst : IsSst bus.chip) (hidle : s.chip.Idle)
    (hlen : buf.length < 2 ^ 32) (hsome : buf ≠ []) (hrange : offset + buf.length ≤ bus.chip.size)
    {fuel : ℕ} (hfuel : buf.length < fuel) :
    ∃ s', sstWrite bus fuel offset buf s = .ok (0, s') ∧ SstWritten offset buf s s' := by
  have hpos : 0 < buf.length := List.length_pos_iff.2 hsome
  have haddr := hsst.addressed
  -- the leading byte
  have hleading : ∃ s₁, sstSingle bus (offset % 2 ≠ 0) buf offset 0 s = .ok (0, s₁) ∧
      s₁.chip.Idle ∧
      Progress buf s.chip offset 0 s₁.chip (offset + offset % 2) (offset % 2) := by
    rcases Nat.mod_two_eq_zero_or_one offset with hparity | hparity
    · refine ⟨s, ?_, hidle, ?_⟩
      · rw [sstSingle, if_neg (not_not.2 hparity)]
      · rw [hparity]
        exact .refl
    · obtain ⟨s₁, hsingle, hidle₁, _, hprogress⟩ :=
        sstSingle_eq buf offset 0 s hok hsst hidle hpos (by omega)
      have hwanted : offset % 2 ≠ 0 := by omega
      refine ⟨s₁, ?_, hidle₁, ?_⟩
      · rw [← hsingle, sstSingle, sstSingle, if_pos hwanted, if_pos trivial]
      · rw [hparity]
        exact hprogress
  obtain ⟨s₁, hfirst, hidle₁, hprogress₁⟩ := hleading
  obtain ⟨hready₁, hplain₁⟩ := hidle₁
  have henabled : sstEnableWriting bus s₁ =
      (0, ⟨{ s₁.chip with wel := true }, s₁.sent ++ [[cmdSstWren]]⟩) := by
    rw [sstEnableWriting, spiFlashCmd, spiXfer_eq hok, cmdSstWren, decode_writeEnable]
    simp only [NorFlash.execute, hready₁, if_true]
  -- the words
  have hstart : Word.add 32 offset (offset % 2) = offset + offset % 2 := by
    rw [Word.add]
    omega
  obtain ⟨words, hloop, hret, hbusy, hend, hprogress₂⟩ := sstWordLoop_eq hok hsst hlen hpos
    fuel True (cmdSstAaiWp :: addressBytes (offset + offset % 2)) (offset + offset % 2)
    (offset % 2) ⟨{ s₁.chip with wel := true }, s₁.sent ++ [[cmdSstWren]]⟩ (by omega) (by omega)
    (by omega) ⟨hready₁, fun _ => ⟨rfl, fun _ => hplain₁, fun h => absurd trivial h⟩⟩
    ⟨fun _ => rfl, fun h => absurd trivial h⟩ (by omega)
  -- the trailing byte
  obtain ⟨s', offset', hfinish, hwel, haai, hprogress₃⟩ := sstFinish_eq hok hsst hret hbusy hend
  have hprogress₂' : Progress buf s₁.chip (offset + offset % 2) (offset % 2) words.state.chip
      words.offset words.actual := ⟨hprogress₂.log, hprogress₂.mem⟩
  obtain ⟨hlog, hmem⟩ := ((hprogress₁.trans hprogress₂').trans hprogress₃).all
  refine ⟨s', ?_, hlog, hmem, hwel, haai⟩
  rw [sstWrite, if_neg (by simp [hok.claimed])]
  simp only [hfirst, Except.bind, ne_eq, not_true_eq_false, if_false, hstart, henabled, hloop]
  exact hfinish

/-! ### Outside the chip, and empty buffers -/

lemma sstByteWrite_logged (hpos : 0 < bus.chip.size) :
    Logged bus.chip s.chip (sstByteWrite bus s offset b).2.chip := by
  have hstatus : Logged bus.chip s.chip (sstLogStatus bus s).chip := spiXfer_logged hpos _
  have henabled : Logged bus.chip s.chip (sstEnableWriting bus (sstLogStatus bus s)).2.chip :=
    hstatus.trans (spiXfer_logged hpos _)
  unfold sstByteWrite
  dsimp only
  split
  · exact henabled
  · have hsent := henabled.trans (spiXfer_logged hpos
      (cmdSstBp :: addressBytes offset ++ [b]))
    split
    · exact hsent
    · exact hsent.trans (waitReady_logged hpos _)

lemma sstWordWrite_logged (hpos : 0 < bus.chip.size) (cmd : List UInt8) :
    Logged bus.chip s.chip (sstWordWrite bus s cmd d₀ d₁).2.chip := by
  have hstatus : Logged bus.chip s.chip (sstLogStatus bus s).chip := spiXfer_logged hpos _
  have hsent := hstatus.trans (spiXfer_logged hpos (cmd ++ [d₀, d₁]))
  unfold sstWordWrite
  dsimp only
  split
  · exact hsent
  · exact hsent.trans (waitReady_logged hpos _)

lemma sstSingle_logged (hpos : 0 < bus.chip.size) (wanted : Prop) [Decidable wanted]
    {r : ℤ × State} (h : sstSingle bus wanted buf offset actual s = .ok r) :
    Logged bus.chip s.chip r.2.chip := by
  unfold sstSingle at h
  split at h
  · split at h
    · cases h
      exact sstByteWrite_logged hpos
    · cases h
  · cases h
    exact .refl

lemma sstWordLoop_logged (hpos : 0 < bus.chip.size) (fuel : ℕ) {cmd : List UInt8} {words : Words}
    (h : sstWordLoop bus buf fuel cmd offset actual s = .ok words) :
    Logged bus.chip s.chip words.state.chip := by
  induction fuel generalizing offset actual s cmd with
  | zero => cases h
  | succ fuel ih =>
    unfold sstWordLoop at h
    split at h
    · split at h
      · dsimp only at h
        split at h
        · cases h
          exact sstWordWrite_logged hpos cmd
        · exact (sstWordWrite_logged hpos cmd).trans (ih h)
      · cases h
    · cases h
      exact .refl

lemma sstFinish_logged (hpos : 0 < bus.chip.size) {words : Words} {r : ℤ × State}
    (h : sstFinish bus buf words = .ok r) : Logged bus.chip words.state.chip r.2.chip := by
  have hdisabled : Logged bus.chip words.state.chip (sstDisableWriting bus words.state).2.chip :=
    spiXfer_logged hpos _
  unfold sstFinish at h
  split at h
  · cases h
    exact .refl
  · dsimp only at h
    split at h
    · cases h
      exact hdisabled
    · exact hdisabled.trans (sstSingle_logged hpos _ h)

lemma sstWrite_logged (hpos : 0 < bus.chip.size) {fuel : ℕ} {r : ℤ × State}
    (h : sstWrite bus fuel offset buf s = .ok r) : Logged bus.chip s.chip r.2.chip := by
  unfold sstWrite at h
  split at h
  · cases h
    exact .refl
  · dsimp only at h
    cases hfirst : sstSingle bus (offset % 2 ≠ 0) buf offset 0 s with
    | error e =>
      rw [hfirst] at h
      cases h
    | ok first =>
      rw [hfirst] at h
      have hlogged := sstSingle_logged hpos _ hfirst
      have henabled := hlogged.trans (spiXfer_logged (s := first.2) hpos [cmdSstWren])
      simp only [Except.bind] at h
      split at h
      · cases h
        exact hlogged
      · split at h
        · cases h
          exact henabled
        · split at h
          · cases h
          · rename_i words hloop
            exact (henabled.trans (sstWordLoop_logged hpos fuel hloop)).trans
              (sstFinish_logged hpos h)

/-- Of an empty buffer a byte outside it is read, unless the loop is not even entered for want of
fuel. -/
lemma sstWrite_nil (hok : bus.Succeeds progTimeout) (fuel : ℕ) {r : ℤ × State} :
    sstWrite bus fuel offset [] s ≠ .ok r := by
  intro h
  rw [sstWrite, if_neg (by simp [hok.claimed])] at h
  dsimp only at h
  rcases Nat.mod_two_eq_zero_or_one offset with hparity | hparity
  · rw [hparity, sstSingle, if_neg (by simp)] at h
    have henabled : (sstEnableWriting bus s).1 = 0 := by
      rw [sstEnableWriting, spiFlashCmd, spiXfer_eq hok]
    simp only [Except.bind, ne_eq, not_true_eq_false, if_false, henabled] at h
    cases fuel with
    | zero => simp [sstWordLoop] at h
    | succ fuel =>
      rw [sstWordLoop, if_pos (by simp [Word.sub])] at h
      simp at h
  · rw [hparity, sstSingle, if_pos (by simp)] at h
    simp [Except.bind] at h

/-- On a chip of the table a write programs exactly the bytes of the buffer at their addresses,
reads no other byte, and leaves write mode off, if and only if the buffer is not empty and the
range lies inside the chip. -/
theorem sstWrite_iff (bus : Bus) (hok : bus.Succeeds progTimeout) (hpage : bus.chip.page = 1)
    (params : SstParams) (hparams : params ∈ sstSpiFlashTable) (hsize : bus.chip.size = params.size)
    (offset : ℕ) (buf : List UInt8) (hlen : buf.length < 2 ^ 32) (s : State)
    (hidle : s.chip.Idle) :
    (∃ fuel s', sstWrite bus fuel offset buf s = .ok (0, s') ∧ SstWritten offset buf s s') ↔
      buf ≠ [] ∧ offset + buf.length ≤ bus.chip.size := by
  have hsst := sst_table hpage params hparams hsize
  constructor
  · rintro ⟨fuel, s', hrun, hwritten⟩
    have hsome : buf ≠ [] := by
      rintro rfl
      exact sstWrite_nil hok fuel hrun
    refine ⟨hsome, ?_⟩
    obtain ⟨cells, hlog, _, hcells⟩ := sstWrite_logged hsst.pos hrun
    have hsame : cellsFrom offset buf = cells :=
      List.append_cancel_left (hwritten.cells.symm.trans hlog)
    have hlast := last_mem_cellsFrom (a := offset) hsome
    rw [hsame] at hlast
    have := hcells _ hlast
    have := List.length_pos_iff.2 hsome
    omega
  · rintro ⟨hsome, hrange⟩
    obtain ⟨s', hrun, hwritten⟩ :=
      sstWrite_eq hok hsst hidle hlen hsome hrange (Nat.lt_succ_self buf.length)
    exact ⟨_, s', hrun, hwritten⟩

/-- An erased chip of the table. -/
def erasedSst : Bus := ⟨⟨524288, 1, 2⟩, 0, fun _ => 0⟩

/-- The write with length zero that ends a sector of whole transfers. -/
theorem sstWrite_empty :
    ¬ ∃ fuel s', sstWrite erasedSst fuel 0x1000 [] ⟨⟨fun _ => 0xFF, false, 0, none, []⟩, []⟩ =
      .ok (0, s') ∧ SstWritten 0x1000 [] ⟨⟨fun _ => 0xFF, false, 0, none, []⟩, []⟩ s' := by
  rintro ⟨fuel, s', hrun, _⟩
  exact sstWrite_nil ⟨rfl, fun _ => rfl, by decide⟩ fuel hrun

/-- Three bytes at an odd address. -/
theorem sstWrite_iff_odd :
    ∃ fuel s', sstWrite erasedSst fuel 0x1001 [1, 2, 3]
        ⟨⟨fun _ => 0xFF, false, 0, none, []⟩, []⟩ = .ok (0, s') ∧
      SstWritten 0x1001 [1, 2, 3] ⟨⟨fun _ => 0xFF, false, 0, none, []⟩, []⟩ s' :=
  (sstWrite_iff erasedSst ⟨rfl, fun _ => rfl, by decide⟩ rfl ⟨0x8d, 128, "SST25VF040B"⟩
    List.mem_cons_self rfl 0x1001 [1, 2, 3] (by decide) _ ⟨rfl, rfl⟩).mpr ⟨by simp, by decide⟩

end ApuBios.Spi
