import ApuBios.Drivers.Spi.PageProgram
import ApuBios.Library.Word

/-!
# Byte counts of the SPI controller

Model of `spi_xfer` in `southbridge/amd/cimx/sb800/spi.c`. The controller has one register for the
number of bytes out and the number of bytes in, with four bits for each. The chunks of
`winbond_write` and the reads of `spi_flash.c` do not keep to that.
-/

namespace ApuBios.Sb800

open NorFlash Spi

/-- What `spi_xfer` hands to the controller: the count register, the command byte, the bytes for
the FIFO, and how many bytes are taken from it after as many are skipped. -/
structure Handed where
  readwrite : ℕ
  cmd : UInt8
  fifo : List UInt8
  bytesin : ℕ

/-- The lengths are in bits, the counts in bytes; all of them are unsigned. -/
def spiXfer (dout : List UInt8) (bitsout bitsin : ℕ) : Handed :=
  let bitsout := Word.sub 32 bitsout 8
  let bytesout := bitsout / 8 % 2 ^ 8
  let bytesin := bitsin / 8 % 2 ^ 8
  let readoffby1 := if bytesout ≠ 0 then 0 else 1
  { readwrite := (((bytesin + readoffby1) <<< 4) ||| bytesout) % 2 ^ 8
    cmd := dout.headD 0
    fifo := (dout.drop 1).take bytesout
    bytesin := bytesin }

/-- A transfer as the drivers of the chips ask for it: the bytes out, with the command first, and the
number of bytes in. -/
structure Transfer where
  out : List UInt8
  response : ℕ

/-- The lengths are passed on in bits, as a `size_t` of 32 bits. -/
def Transfer.handed (x : Transfer) : Handed :=
  spiXfer x.out (x.out.length * 8 % 2 ^ 32) (x.response * 8 % 2 ^ 32)

/-- The number of bytes behind the command byte. -/
def Transfer.bytesOut (x : Transfer) : ℕ := x.out.length - 1

/-- A command without further bytes counts as one more byte in. -/
def Transfer.readoffby1 (x : Transfer) : ℕ := if x.bytesOut = 0 then 1 else 0

/-- Both fields of the count register hold the counts themselves. -/
def Transfer.Encoded (x : Transfer) : Prop :=
  x.handed.readwrite / 2 ^ 4 = x.response + x.readoffby1 ∧ x.handed.readwrite % 2 ^ 4 = x.bytesOut

instance (x : Transfer) : Decidable x.Encoded := inferInstanceAs (Decidable (_ ∧ _))

def cmdReadArrayFast : UInt8 := 0x0b
def cmdReadArraySlow : UInt8 := 0x03

/-- The transfer of `spi_flash_cmd_read_fast`. -/
def spiFlashCmdReadFast (offset len : ℕ) : Transfer :=
  ⟨cmdReadArrayFast :: (addressBytes offset ++ [0x00]), len⟩

/-- The transfer of `spi_flash_cmd_read_slow`. -/
def spiFlashCmdReadSlow (offset len : ℕ) : Transfer :=
  ⟨cmdReadArraySlow :: addressBytes offset, len⟩

/-- The transfers of `winbond_write` by their bytes out. Only reads of the status register have a
response, of one byte. -/
def transferOf (bytes : List UInt8) : Transfer := ⟨bytes, if bytes = [cmdReadStatus] then 1 else 0⟩

/-- On this controller the bus can always be claimed, and `spi_xfer` reports no errors. -/
structure Controller (bus : Bus) : Prop where
  claimed : bus.claimBus = 0
  transferred : ∀ n, bus.outcome n = 0

/-- Every transfer of the call is encoded, whatever the chip does. -/
def WriteEncoded (params : WinbondParams) (offset len : ℕ) (buf : ℕ → UInt8) : Prop :=
  ∀ bus, Controller bus → ∀ (s : Spi.State) fuel ret s',
    winbondWrite bus params fuel offset len buf s = some (ret, s') →
      ∃ more, s'.sent = s.sent ++ more ∧ ∀ bytes ∈ more, (transferOf bytes).Encoded

/-- The first chunk, up to the next multiple of the page limit, and the rest are short. -/
def ShortChunks (offset len : ℕ) : Prop :=
  min len (controllerPageLimit - offset % controllerPageLimit) ≤ 12 ∧
    len - min len (controllerPageLimit - offset % controllerPageLimit) ≤ 12

instance (offset len : ℕ) : Decidable (ShortChunks offset len) := inferInstanceAs (Decidable (_ ∧ _))

variable {w : PageWrite} {bus : Bus} {s s' s'' : Spi.State} {offset byteAddr actual len fuel n : ℕ}
  {params : WinbondParams} {buf : ℕ → UInt8} {P : List UInt8 → Prop} {x : Transfer}

/-! ### The count register -/

lemma or_shift_eq {a b : ℕ} (hb : b < 2 ^ 4) : (a <<< 4) ||| b = 2 ^ 4 * a + b := by
  rw [← Nat.shiftLeft_add_eq_or_of_lt hb, Nat.shiftLeft_eq, Nat.mul_comm]

/-- A transfer with a command byte is encoded exactly if both counts fit into four bits. -/
lemma encoded_iff (hcmd : 0 < x.out.length) :
    x.Encoded ↔ x.bytesOut < 2 ^ 4 ∧ x.response + x.readoffby1 < 2 ^ 4 := by
  constructor
  · rintro ⟨hin, hout⟩
    have hlt : x.handed.readwrite < 2 ^ 8 := Nat.mod_lt _ (by decide)
    constructor
    · rw [← hout]
      exact Nat.mod_lt _ (by decide)
    · rw [← hin]
      omega
  · rintro ⟨hout, hin⟩
    have hbytes : Word.sub 32 (x.out.length * 8 % 2 ^ 32) 8 / 8 % 2 ^ 8 = x.bytesOut := by
      rw [Transfer.bytesOut] at hout ⊢
      have hbits : x.out.length * 8 % 2 ^ 32 = x.out.length * 8 := Nat.mod_eq_of_lt (by omega)
      rw [hbits, Word.sub_eq (by omega) (by omega)]
      omega
    have hresponse : x.response * 8 % 2 ^ 32 / 8 % 2 ^ 8 = x.response := by
      omega
    have hoff : (if x.bytesOut ≠ 0 then 0 else 1) = x.readoffby1 := by
      rw [Transfer.readoffby1]
      split_ifs <;> simp_all
    have hreg : x.handed.readwrite = 2 ^ 4 * (x.response + x.readoffby1) + x.bytesOut := by
      simp only [Transfer.handed, spiXfer, hbytes, hresponse, hoff]
      rw [or_shift_eq hout, Nat.mod_eq_of_lt (by omega)]
    rw [Transfer.Encoded, hreg]
    omega

lemma readFast_encoded_iff : (spiFlashCmdReadFast offset len).Encoded ↔ len ≤ 15 := by
  have hout : (spiFlashCmdReadFast offset len).bytesOut = 4 := rfl
  have hoff : (spiFlashCmdReadFast offset len).readoffby1 = 0 := rfl
  have hcmd : 0 < (spiFlashCmdReadFast offset len).out.length := Nat.succ_pos _
  rw [encoded_iff hcmd, hout, hoff]
  simp only [spiFlashCmdReadFast]
  omega

lemma readSlow_encoded_iff : (spiFlashCmdReadSlow offset len).Encoded ↔ len ≤ 15 := by
  have hout : (spiFlashCmdReadSlow offset len).bytesOut = 3 := rfl
  have hoff : (spiFlashCmdReadSlow offset len).readoffby1 = 0 := rfl
  have hcmd : 0 < (spiFlashCmdReadSlow offset len).out.length := Nat.succ_pos _
  rw [encoded_iff hcmd, hout, hoff]
  simp only [spiFlashCmdReadSlow]
  omega

/-- A page program command with its data. -/
lemma program_encoded_iff (pp : UInt8) {data : List UInt8} :
    (transferOf (pp :: addressBytes offset ++ data)).Encoded ↔ data.length ≤ 12 := by
  have hout : (transferOf (pp :: addressBytes offset ++ data)).bytesOut = data.length + 3 := by
    simp [transferOf, Transfer.bytesOut, addressBytes]
  have hoff : (transferOf (pp :: addressBytes offset ++ data)).readoffby1 = 0 := by
    rw [Transfer.readoffby1, hout, if_neg (Nat.succ_ne_zero _)]
  have hresponse : (transferOf (pp :: addressBytes offset ++ data)).response = 0 := by
    simp [transferOf, addressBytes]
  have hcmd : 0 < (transferOf (pp :: addressBytes offset ++ data)).out.length := Nat.succ_pos _
  rw [encoded_iff hcmd, hout, hoff, hresponse]
  omega

/-! ### The transfers of a call -/

/-- What is sent in between has the property. -/
def Sends (P : List UInt8 → Prop) (s s' : Spi.State) : Prop :=
  ∃ more, s'.sent = s.sent ++ more ∧ ∀ bytes ∈ more, P bytes

lemma Sends.refl : Sends P s s := ⟨[], by simp, by simp⟩

lemma Sends.trans (h : Sends P s s') (h' : Sends P s' s'') : Sends P s s'' := by
  obtain ⟨more, hsent, hall⟩ := h
  obtain ⟨more', hsent', hall'⟩ := h'
  refine ⟨more ++ more', by rw [hsent', hsent, List.append_assoc], ?_⟩
  intro bytes hbytes
  rcases List.mem_append.mp hbytes with hbytes | hbytes
  · exact hall bytes hbytes
  · exact hall' bytes hbytes

lemma sends_spiXfer {bytes : List UInt8} (h : P bytes) : Sends P s (Spi.spiXfer bus s bytes).2 :=
  ⟨[bytes], rfl, by simpa using h⟩

lemma sends_pollBit {cmd bit : UInt8} (h : P [cmd]) (rounds : ℕ) :
    Sends P s (pollBit bus cmd bit rounds s).2 := by
  induction rounds generalizing s with
  | zero =>
    rw [pollBit]
    split_ifs <;> exact sends_spiXfer h
  | succ rounds ih =>
    rw [pollBit]
    split_ifs
    · exact sends_spiXfer h
    · exact sends_spiXfer h
    · exact Sends.trans (sends_spiXfer h) ih

/-- A pass sends write enable, the page program command with the chunk, and reads of the status
register. -/
lemma sends_pass (hwren : P [w.wren]) (hstatus : P [cmdReadStatus])
    (hpp : P (w.pp :: addressBytes offset ++ w.data actual n)) :
    Sends P s (w.pass bus offset actual n s).2.2 := by
  have henabled : Sends P s (spiFlashCmd bus s w.wren).2 := sends_spiXfer hwren
  simp only [PageWrite.pass]
  split_ifs
  · exact henabled
  · exact henabled.trans (sends_spiXfer hpp)
  · exact (henabled.trans (sends_spiXfer hpp)).trans (sends_pollBit hstatus _)

/-- Short chunks are encoded. -/
lemma sends_loop (hwren : (transferOf [w.wren]).Encoded) (hfirst : w.chunkLen byteAddr actual ≤ 12)
    (hrest : w.len - (actual + w.chunkLen byteAddr actual) ≤ 12) {ret : ℤ}
    (h : w.loop bus fuel offset byteAddr actual s = some (ret, s')) :
    Sends (fun bytes => (transferOf bytes).Encoded) s s' := by
  induction fuel generalizing offset byteAddr actual s with
  | zero => cases h
  | succ fuel ih =>
    rw [PageWrite.loop] at h
    dsimp only at h
    split_ifs at h
    · obtain ⟨-, rfl⟩ := Prod.ext_iff.mp (Option.some.inj h)
      exact sends_pass hwren (by decide) ((program_encoded_iff w.pp).mpr (by simpa using hfirst))
    · refine Sends.trans (sends_pass hwren (by decide)
        ((program_encoded_iff w.pp).mpr (by simpa using hfirst))) (ih ?_ ?_ h)
      · exact (Nat.min_le_left _ _).trans hrest
      · omega
    · obtain ⟨-, rfl⟩ := Prod.ext_iff.mp (Option.some.inj h)
      exact .refl

/-! ### A chip that is never busy -/

section

variable (hok : bus.Succeeds progTimeout) (hdelay : bus.chip.delay = 0)
include hdelay

lemma execute_busy {c : NorFlash.State} (h : c.busy = 0) (cmd : Command) :
    (bus.chip.execute c cmd).busy = 0 := by
  have hword : ∀ (c : NorFlash.State) a d₀ d₁, (bus.chip.programWord c a d₀ d₁).busy = 0 := by
    intro c a d₀ d₁
    simp only [programWord]
    split_ifs <;> exact hdelay
  cases cmd with
  | readStatus => simp [NorFlash.execute, h]
  | writeEnable => simp [NorFlash.execute, h]
  | writeDisable => simp [NorFlash.execute, h]
  | program a data =>
    simp only [NorFlash.execute]
    split_ifs
    · exact hdelay
    · exact h
  | wordFirst a d₀ d₁ =>
    simp only [NorFlash.execute]
    split_ifs
    · exact hword _ _ _ _
    · exact h
  | wordNext d₀ d₁ =>
    simp only [NorFlash.execute]
    split
    · split_ifs
      · exact hword _ _ _ _
      · exact h
    · exact h
  | other => exact h

include hok

/-- A pass succeeds and sends the chunk. -/
lemma pass_sends (h : s.chip.busy = 0) : ∃ s', w.pass bus offset actual n s = (false, 0, s') ∧
    s'.chip.busy = 0 ∧ ∃ before behind, s'.sent =
      s.sent ++ before ++ [w.pp :: addressBytes offset ++ w.data actual n] ++ behind := by
  obtain ⟨s₁, hs₁⟩ : ∃ s₁, s₁ = (spiFlashCmdWrite bus (spiFlashCmd bus s w.wren).2
      (w.pp :: addressBytes offset) (w.data actual n)).2 := ⟨_, rfl⟩
  have henabled : (spiFlashCmd bus s w.wren).1 = 0 := hok.transferred _
  have hwritten : (spiFlashCmdWrite bus (spiFlashCmd bus s w.wren).2
      (w.pp :: addressBytes offset) (w.data actual n)).1 = 0 := hok.transferred _
  have hbusy : s₁.chip.busy = 0 := by
    rw [hs₁, spiFlashCmdWrite, spiFlashCmd, spiXfer_eq hok, spiXfer_eq hok]
    exact execute_busy hdelay (execute_busy hdelay h _) _
  have hsent : s₁.sent =
      s.sent ++ [[w.wren]] ++ [w.pp :: addressBytes offset ++ w.data actual n] := by
    rw [hs₁]
    rfl
  have hwait := waitReady_eq hok (s := s₁) (by rw [hbusy]; exact Nat.zero_le _)
  refine ⟨(waitReady bus s₁ progTimeout).2, ?_, ?_, [[w.wren]],
    List.replicate (s₁.chip.busy + 1) [cmdReadStatus], ?_⟩
  · simp only [PageWrite.pass, henabled, hwritten, lt_irrefl, if_false]
    rw [← hs₁, hwait]
    simp
  · rw [hwait]
  · rw [hwait, hsent]

/-- The loop ends, and the chunk of each round is among what is sent. -/
lemma loop_sends (h : s.chip.busy = 0) (hbyte : byteAddr < w.pageSize)
    (hfuel : w.len - actual < fuel) :
    ∃ s', w.loop bus fuel offset byteAddr actual s = some (0, s') ∧
      ∃ more, s'.sent = s.sent ++ more ∧
        (actual < w.len →
          w.pp :: addressBytes offset ++ w.data actual (w.chunkLen byteAddr actual) ∈ more) ∧
        (actual + w.chunkLen byteAddr actual < w.len → ∃ offset',
          w.pp :: addressBytes offset' ++ w.data (actual + w.chunkLen byteAddr actual)
            (w.chunkLen 0 (actual + w.chunkLen byteAddr actual)) ∈ more) := by
  induction fuel generalizing offset byteAddr actual s with
  | zero => omega
  | succ fuel ih =>
    rw [PageWrite.loop]
    dsimp only
    by_cases hmore : actual < w.len
    · obtain ⟨s₁, hpass, hbusy, before, behind, hsent₁⟩ :=
        @pass_sends w bus s offset actual (w.chunkLen byteAddr actual) hok hdelay h
      have hpos : 0 < w.chunkLen byteAddr actual := Nat.lt_min.mpr ⟨by omega, by omega⟩
      obtain ⟨s', hloop, more, hsent, hnext, -⟩ :=
        @ih s₁ ((offset + w.chunkLen byteAddr actual) % 2 ^ 32) 0
          (actual + w.chunkLen byteAddr actual) hbusy (by omega) (by omega)
      rw [if_pos hmore, hpass]
      refine ⟨s', hloop, before ++ [w.pp :: addressBytes offset ++
        w.data actual (w.chunkLen byteAddr actual)] ++ behind ++ more, ?_, fun _ => by simp, ?_⟩
      · rw [hsent, hsent₁]
        simp only [List.append_assoc]
      · exact fun hrest => ⟨_, List.mem_append_right _ (hnext hrest)⟩
    · rw [if_neg hmore]
      exact ⟨s, rfl, [], by simp, fun h => absurd h hmore, fun h => by omega⟩

end

/-! ### The three functions -/

/-- A chip that is never busy. -/
def readyBus : Bus := ⟨⟨2 ^ 24, 256, 0⟩, 0, fun _ => 0⟩

/-- The transfers of a call of `winbond_write` are encoded exactly if its chunks are short. -/
lemma writeEncoded_iff (hparams : params ∈ winbondSpiFlashTable) :
    WriteEncoded params offset len buf ↔ ShortChunks offset len := by
  have hlimit : min (1 <<< params.l2PageSize) controllerPageLimit = controllerPageLimit := by
    rw [(winbond_table params hparams).1]
    rfl
  obtain ⟨w, hw⟩ : ∃ w : PageWrite, w = ⟨0x06, 0x02, controllerPageLimit, len, buf⟩ := ⟨_, rfl⟩
  have hwrite : ∀ {bus s fuel}, Controller bus → winbondWrite bus params fuel offset len buf s =
      w.loop bus fuel offset (offset % controllerPageLimit) 0 s := by
    intro bus s fuel hbus
    rw [winbondWrite, hlimit, PageWrite.run, if_neg (by simp [hbus.claimed]), hw]
  have hlt : offset % controllerPageLimit < controllerPageLimit := Nat.mod_lt _ (by decide)
  have hfirst : w.chunkLen (offset % controllerPageLimit) 0 =
      min len (controllerPageLimit - offset % controllerPageLimit) := by
    rw [hw, PageWrite.chunkLen, Nat.sub_zero]
  rw [ShortChunks, ← hfirst]
  constructor
  · intro h
    have hready : Controller readyBus := ⟨rfl, fun _ => rfl⟩
    have hok : readyBus.Succeeds progTimeout := ⟨rfl, fun _ => rfl, Nat.zero_le _⟩
    obtain ⟨s', hloop, more, hsent, hchunk, hnext⟩ :=
      @loop_sends w readyBus ⟨⟨fun _ => 0, false, 0, none, []⟩, []⟩ offset
        (offset % controllerPageLimit) 0 (len + 1) hok rfl rfl (by rw [hw]; exact hlt)
        (by rw [hw]; simp)
    obtain ⟨more', hsent', hall⟩ := h readyBus hready _ _ _ _ ((hwrite hready).trans hloop)
    obtain rfl := List.append_cancel_left (hsent.symm.trans hsent')
    rw [Nat.zero_add] at hnext
    have hlen : w.len = len := by rw [hw]
    constructor
    · rcases Nat.eq_zero_or_pos len with hzero | hpos
      · exact (Nat.min_le_left _ _).trans (by omega)
      · have hencoded := hall _ (hchunk (by omega))
        rw [program_encoded_iff, PageWrite.length_data] at hencoded
        exact hencoded
    · by_contra hlong
      obtain ⟨offset', hmem⟩ := hnext (by omega)
      have hencoded := hall _ hmem
      have hsecond : ∀ a, w.chunkLen 0 a = min (len - a) 64 := by
        intro a
        rw [hw]
        rfl
      rw [program_encoded_iff, PageWrite.length_data, hsecond] at hencoded
      omega
  · rintro ⟨hshort, hrest⟩ bus hbus s fuel ret s' hrun
    rw [hwrite hbus] at hrun
    have hwren : w.wren = 0x06 := by rw [hw]
    refine sends_loop (by rw [hwren]; decide) hshort ?_ hrun
    rw [Nat.zero_add, hw]
    simpa [hw] using hrest

/-- The transfers of the three functions are encoded exactly if no chunk of a write has more than 12
bytes, and no read more than 15. -/
theorem encoded_iff_short (hparams : params ∈ winbondSpiFlashTable) (offset len : ℕ)
    (buf : ℕ → UInt8) :
    (WriteEncoded params offset len buf ↔ ShortChunks offset len) ∧
      ((spiFlashCmdReadFast offset len).Encoded ↔ len ≤ 15) ∧
      ((spiFlashCmdReadSlow offset len).Encoded ↔ len ≤ 15) :=
  ⟨writeEncoded_iff hparams, readFast_encoded_iff, readSlow_encoded_iff⟩

theorem encoded_iff_short_eight :
    WriteEncoded ⟨0x4017, 8, 16, 16, 128, "W25Q64"⟩ 60 8 (fun _ => 0) ∧
      (spiFlashCmdReadFast 60 8).Encoded ∧ (spiFlashCmdReadSlow 60 8).Encoded := by
  obtain ⟨hwrite, hfast, hslow⟩ := encoded_iff_short
    (show ⟨0x4017, 8, 16, 16, 128, "W25Q64"⟩ ∈ winbondSpiFlashTable by simp [winbondSpiFlashTable])
    60 8 fun _ => 0
  exact ⟨hwrite.mpr (by decide), hfast.mpr (by decide), hslow.mpr (by decide)⟩

/-- A read of 16 bytes, for which the controller is told to read none, and a write of 13. -/
theorem not_encoded : (spiFlashCmdReadFast 0 16).handed.readwrite = 0x04 ∧
    ¬(spiFlashCmdReadFast 0 16).Encoded ∧
    ¬WriteEncoded ⟨0x4017, 8, 16, 16, 128, "W25Q64"⟩ 0 13 (fun _ => 0) := by
  refine ⟨by decide, by decide, fun h => ?_⟩
  have hshort := (writeEncoded_iff (by simp [winbondSpiFlashTable])).mp h
  exact absurd hshort (by decide)

end ApuBios.Sb800
