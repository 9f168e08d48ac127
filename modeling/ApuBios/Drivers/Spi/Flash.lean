import ApuBios.Library.NorFlash

/-!
# Commands to a serial flash

The functions of `drivers/spi/spi_flash.c` that the drivers of the chips share. A transfer hands
a string of bytes to the controller; the controller's driver answers with a return value, zero
for success, and a transfer that it reports as failed is taken not to have reached the chip.
-/

namespace ApuBios.Spi

open NorFlash

/-- The chip on the bus, and what the controller's driver returns when the bus is claimed and for
each transfer in turn. -/
structure Bus where
  chip : NorFlash
  claimBus : ℤ
  outcome : ℕ → ℤ

/-- The state of the chip, and the strings of bytes sent so far. -/
structure State where
  chip : NorFlash.State
  sent : List (List UInt8)

/-- Every transfer succeeds, and no program command takes longer than the drivers wait. -/
structure Bus.Succeeds (bus : Bus) (timeout : ℕ) : Prop where
  claimed : bus.claimBus = 0
  transferred : ∀ n, bus.outcome n = 0
  ready : bus.chip.delay ≤ timeout * 500

/-- `SPI_FLASH_PROG_TIMEOUT`, twice `CONFIG_SYS_HZ`. -/
def progTimeout : ℕ := 2 * 100

/-- `STATUS_WIP`. -/
def statusWip : UInt8 := 0x01

/-- `CMD_READ_STATUS`. -/
def cmdReadStatus : UInt8 := 0x05

variable (bus : Bus)

/-- `spi_xfer`: the return value, and the chip behind the transfer. -/
def spiXfer (s : State) (bytes : List UInt8) : ℤ × State :=
  let ret := bus.outcome s.sent.length
  (ret, { chip := if ret = 0 then bus.chip.execute s.chip (decode bytes) else s.chip,
          sent := s.sent ++ [bytes] })

/-- `spi_flash_cmd` for a command without a response. -/
def spiFlashCmd (s : State) (cmd : UInt8) : ℤ × State :=
  spiXfer bus s [cmd]

/-- `spi_flash_cmd_write`: the bytes of the command and the data in one transfer. -/
def spiFlashCmdWrite (s : State) (cmd data : List UInt8) : ℤ × State :=
  spiXfer bus s (cmd ++ data)

/-- `spi_flash_cmd_read` of the status register, which is also `spi_w8r8`: the register is read
while the command is under way. -/
def spiReadStatus (s : State) (cmd : UInt8) : ℤ × UInt8 × State :=
  let read := spiXfer bus s [cmd]
  (read.1, NorFlash.status s.chip, read.2)

/-- `spi_flash_cmd_poll_bit` with the rounds that are left after this one. -/
def pollBit (cmd bit : UInt8) : ℕ → State → ℤ × State
  | timebase, s =>
    let read := spiReadStatus bus s cmd
    if read.1 ≠ 0 then (-1, read.2.2)
    else if read.2.1 &&& bit = 0 then (0, read.2.2)
    else
      match timebase with
      | 0 => (-1, read.2.2)
      | rounds + 1 => pollBit cmd bit rounds read.2.2

/-- `spi_flash_cmd_wait_ready`. -/
def waitReady (s : State) (timeout : ℕ) : ℤ × State :=
  pollBit bus cmdReadStatus statusWip (timeout * 500) s

/-- The bytes of an address, as the drivers put them behind the opcode. -/
def addressBytes (offset : ℕ) : List UInt8 :=
  [UInt8.ofNat (offset >>> 16), UInt8.ofNat (offset >>> 8), UInt8.ofNat offset]

variable {bus} {s : State} {timeout : ℕ}

/-! ### Successful transfers -/

lemma spiXfer_eq (hok : bus.Succeeds timeout) (bytes : List UInt8) :
    spiXfer bus s bytes = (0, ⟨bus.chip.execute s.chip (decode bytes), s.sent ++ [bytes]⟩) := by
  simp [spiXfer, hok.transferred]

/-- The chip is busy exactly if the status register says so. -/
lemma status_wip (c : NorFlash.State) : NorFlash.status c &&& statusWip = 0 ↔ c.busy = 0 := by
  unfold NorFlash.status statusWip
  by_cases hbusy : c.busy = 0
  · simp only [hbusy, if_true, iff_true]
    cases c.wel <;> cases c.aai.isSome <;> decide
  · simp only [hbusy, if_false, iff_false]
    cases c.wel <;> cases c.aai.isSome <;> decide

/-- Waiting ends with a chip that is ready, which is otherwise as it was. -/
lemma pollBit_eq (hok : bus.Succeeds timeout) (rounds : ℕ) (h : s.chip.busy ≤ rounds) :
    pollBit bus cmdReadStatus statusWip rounds s =
      (0, ⟨{ s.chip with busy := 0 },
        s.sent ++ List.replicate (s.chip.busy + 1) [cmdReadStatus]⟩) := by
  induction rounds generalizing s with
  | zero =>
    have hbusy : s.chip.busy = 0 := by omega
    have hwip := (status_wip s.chip).2 hbusy
    rw [pollBit]
    simp [spiReadStatus, spiXfer_eq hok, hwip, hbusy, cmdReadStatus, NorFlash.execute]
  | succ rounds ih =>
    rw [pollBit]
    by_cases hbusy : s.chip.busy = 0
    · have hwip := (status_wip s.chip).2 hbusy
      simp [spiReadStatus, spiXfer_eq hok, hwip, hbusy, cmdReadStatus, NorFlash.execute]
    · have hwip := mt (status_wip s.chip).1 hbusy
      have hcount : s.chip.busy = (s.chip.busy - 1) + 1 := by omega
      have hrest := ih (s := ⟨{ s.chip with busy := s.chip.busy - 1 },
        s.sent ++ [[cmdReadStatus]]⟩) (by dsimp only; omega)
      simp only [spiReadStatus, spiXfer_eq hok, ne_eq, not_true_eq_false, if_false, hwip]
      rw [show decode [cmdReadStatus] = .readStatus from rfl]
      simp only [NorFlash.execute]
      rw [hrest]
      simp only [Prod.mk.injEq, State.mk.injEq, true_and, List.append_assoc,
        List.append_cancel_left_eq]
      rw [hcount, List.replicate_succ (n := s.chip.busy - 1 + 1)]
      rfl

/-! ### Any transfers -/

/-- Whatever is sent, the log tells what has happened to the cells. -/
lemma spiXfer_logged (hpos : 0 < bus.chip.size) (bytes : List UInt8) :
    Logged bus.chip s.chip (spiXfer bus s bytes).2.chip := by
  unfold spiXfer
  dsimp only
  split
  · exact execute_logged hpos _
  · exact .refl

lemma pollBit_logged (hpos : 0 < bus.chip.size) (cmd bit : UInt8) (rounds : ℕ) :
    Logged bus.chip s.chip (pollBit bus cmd bit rounds s).2.chip := by
  induction rounds generalizing s with
  | zero =>
    rw [pollBit]
    have hread : Logged bus.chip s.chip (spiReadStatus bus s cmd).2.2.chip := spiXfer_logged hpos _
    split
    · exact hread
    · split <;> exact hread
  | succ rounds ih =>
    rw [pollBit]
    have hread : Logged bus.chip s.chip (spiReadStatus bus s cmd).2.2.chip := spiXfer_logged hpos _
    split
    · exact hread
    · split
      · exact hread
      · exact hread.trans ih

lemma waitReady_logged (hpos : 0 < bus.chip.size) (timeout : ℕ) :
    Logged bus.chip s.chip (waitReady bus s timeout).2.chip :=
  pollBit_logged hpos _ _ _

/-! ### Waiting -/

-- the drivers wait for up to 100000 rounds, which are not to be unrolled
attribute [irreducible] pollBit

lemma waitReady_eq (hok : bus.Succeeds timeout) (h : s.chip.busy ≤ timeout * 500) :
    waitReady bus s timeout =
      (0, ⟨{ s.chip with busy := 0 },
        s.sent ++ List.replicate (s.chip.busy + 1) [cmdReadStatus]⟩) :=
  pollBit_eq hok _ h

lemma decode_program_bytes (offset : ℕ) (data : List UInt8) :
    decode (0x02 :: (addressBytes offset ++ data)) = .program (offset % 2 ^ 24) data := by
  rw [addressBytes, Nat.shiftRight_eq_div_pow, Nat.shiftRight_eq_div_pow]
  simp only [List.cons_append, List.nil_append, decode_program]
  exact congrArg (Command.program · data) (address_ofNat offset)

end ApuBios.Spi
