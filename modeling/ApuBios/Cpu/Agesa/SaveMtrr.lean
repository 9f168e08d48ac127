import ApuBios.Cpu.Agesa.S3Resume

/-!
# Saving the MTRRs for S3

Model of `OemAgesaSaveMtrr` and `restore_mtrr` in `cpu/amd/agesa/s3_resume.c`. The RdDram and WrDram
bits of the fixed MTRRs are hidden while `MtrrFixDramModEn` is clear, so that bit is set whenever they
are read or written. A comparison that ends at a fixed MTRR leaves it set.
-/

namespace ApuBios.S3Resume

/-- The model-specific registers. -/
abbrev Msrs := ℕ → BitVec 64

def SYS_CFG : ℕ := 0xC0010010
def TOP_MEM : ℕ := 0xC001001A
def TOP_MEM2 : ℕ := 0xC001001D

def SYSCFG_MSR_MtrrFixDramModEn : BitVec 64 := 1#64 <<< 19

def mtrrTableFixed : List ℕ :=
  [0x250, 0x258, 0x259, 0x268, 0x269, 0x26A, 0x26B, 0x26C, 0x26D, 0x26E, 0x26F]

def mtrrTableVar : List ℕ :=
  [0x200, 0x201, 0x202, 0x203, 0x204, 0x205, 0x206, 0x207, 0x208, 0x209, 0x20A, 0x20B, 0x20C, 0x20D,
    0x20E, 0x20F, SYS_CFG, TOP_MEM, TOP_MEM2]

/-- The extension bits of a fixed MTRR: RdDram and WrDram of each of its eight ranges. -/
def dramBits : BitVec 64 := 0x1818181818181818#64

/-- The extension bits are accessible. -/
def Msrs.ModEn (r : Msrs) : Prop := r SYS_CFG &&& SYSCFG_MSR_MtrrFixDramModEn ≠ 0

instance (r : Msrs) : Decidable r.ModEn := inferInstanceAs (Decidable (_ ≠ _))

/-- Hidden bits are read as 0. -/
def rdmsr (r : Msrs) (idx : ℕ) : BitVec 64 :=
  if idx ∈ mtrrTableFixed ∧ ¬r.ModEn then r idx &&& ~~~dramBits else r idx

/-- Hidden bits are not written. -/
def wrmsr (r : Msrs) (idx : ℕ) (v : BitVec 64) : Msrs :=
  Function.update r idx
    (if idx ∈ mtrrTableFixed ∧ ¬r.ModEn then (v &&& ~~~dramBits) ||| (r idx &&& dramBits) else v)

/-- Enable access to the extension bits. -/
def setModEn (r : Msrs) : Msrs :=
  wrmsr r SYS_CFG (rdmsr r SYS_CFG ||| SYSCFG_MSR_MtrrFixDramModEn)

/-- Disable access to the extension bits. -/
def clearModEn (r : Msrs) : Msrs :=
  wrmsr r SYS_CFG (rdmsr r SYS_CFG &&& ~~~SYSCFG_MSR_MtrrFixDramModEn)

/-- `S3_DATA_MTRR_POS` -/
def Config.mtrrPos (c : Config) : ℕ := c.s3DataPos + S3_DATA_VOLATILE_SIZE

/-- A register as it lies in memory, `lo` before `hi`. -/
def msrAt (m : Mem) (p : ℕ) : BitVec 64 := BitVec.ofNat 64 (m.readLE p 8)

/-- `msr_data` -/
def msrData (v : BitVec 64) : Mem := Mem.writeLE (fun _ => 0) 0 8 v.toNat

/-! ### Saving -/

/-- `check_mtrr` of one register after the other, up to the first that does not match. -/
def checkLoop (r : Msrs) (m : Mem) : List ℕ → (nvramPos : ℕ) → Bool × ℕ
  | [], nvramPos => (false, nvramPos)
  | idx :: table, nvramPos =>
    if rdmsr r idx ≠ msrAt m nvramPos then (true, Word.add 32 nvramPos 8)
    else checkLoop r m table (Word.add 32 nvramPos 8)

/-- Whether the area does not match, and the registers. -/
def checkSavedMtrrData (r : Msrs) (m : Mem) (spiData : ℕ) : Bool × Msrs :=
  let r := setModEn r
  let fixed := checkLoop r m mtrrTableFixed spiData
  if fixed.1 then
    (true, r)
  else
    let r := clearModEn r
    ((checkLoop r m mtrrTableVar fixed.2).1, r)

def writeMtrr (c : Config) (flash : SpiFlash) (r : Msrs) (idx nvramPos : ℕ) (m : Mem) : Mem :=
  let data := msrData (rdmsr r idx)
  if 8 ≤ c.txLen then
    flash.write m nvramPos (bytes data 0 8)
  else
    flash.write (flash.write m nvramPos (bytes data 0 4)) (Word.add 32 nvramPos 4) (bytes data 4 4)

/-- `write_mtrr` of one register after the other. -/
def writeMtrrs (c : Config) (flash : SpiFlash) (r : Msrs) :
    List ℕ → (nvramPos : ℕ) → Mem → ℕ × Mem
  | [], nvramPos, m => (nvramPos, m)
  | idx :: table, nvramPos, m =>
    writeMtrrs c flash r table (Word.add 32 nvramPos 8) (writeMtrr c flash r idx nvramPos m)

/-- `flash` is what `spi_flash_probe` returns. -/
def oemAgesaSaveMtrr (c : Config) (flash : Option SpiFlash) (r : Msrs) (m : Mem) : Msrs × Mem :=
  let check := checkSavedMtrrData r m c.mtrrPos
  if !check.1 then
    (check.2, m)
  else
    match flash with
    | none => (check.2, m)
    | some flash =>
      let m := flash.erase m c.mtrrPos S3_DATA_MTRR_SIZE
      let r := setModEn check.2
      let fixed := writeMtrrs c flash r mtrrTableFixed c.mtrrPos m
      let r := clearModEn r
      (r, (writeMtrrs c flash r mtrrTableVar fixed.1 fixed.2).2)

/-! ### Restoring -/

/-- The registers of a table are written one after the other. -/
def restoreLoop (m : Mem) : List ℕ → (msrPtr : ℕ) → Msrs → ℕ × Msrs
  | [], msrPtr, r => (msrPtr, r)
  | idx :: table, msrPtr, r => restoreLoop m table (msrPtr + 8) (wrmsr r idx (msrAt m msrPtr))

def restoreMtrr (c : Config) (m : Mem) (r : Msrs) : Msrs :=
  let fixed := restoreLoop m mtrrTableFixed c.mtrrPos (setModEn r)
  (restoreLoop m mtrrTableVar fixed.1 (clearModEn fixed.2)).2

/-! ### What is to hold -/

/-- What the driver does in the area: it is erased to `0xff`, and bytes are combined with what is
there. -/
structure SpiFlash.Area (flash : SpiFlash) (pos : ℕ) : Prop where
  erase : ∀ m, flash.erase m pos S3_DATA_MTRR_SIZE = m.memset pos 0xff S3_DATA_MTRR_SIZE
  write : ∀ m offset buf, pos ≤ offset → offset + buf.length ≤ pos + S3_DATA_MTRR_SIZE →
    flash.write m offset buf = (NorFlash.cellsFrom offset buf).foldl NorFlash.burn m

/-- The memory holds the registers of a table one behind the other. -/
def Stores (m : Mem) (r : Msrs) : List ℕ → (pos : ℕ) → Prop
  | [], _ => True
  | idx :: table, pos => msrAt m pos = r idx ∧ Stores m r table (pos + 8)

/-- The area matches the registers. -/
def Matches (c : Config) (m : Mem) (r : Msrs) : Prop :=
  Stores m r (mtrrTableFixed ++ mtrrTableVar) c.mtrrPos

/-- The mode is off, the other registers are as before, and if there is a flash or the area matches,
the registers are restored from it, whatever they are then. -/
structure SavedMtrr (c : Config) (flash : Option SpiFlash) (r : Msrs) (m : Mem) : Prop where
  modEn : ¬(oemAgesaSaveMtrr c flash r m).1.ModEn
  others : ∀ idx ≠ SYS_CFG, (oemAgesaSaveMtrr c flash r m).1 idx = r idx
  restored : flash.isSome ∨ Matches c m r → ∀ r₀, ∀ idx ∈ mtrrTableFixed ++ mtrrTableVar,
    restoreMtrr c (oemAgesaSaveMtrr c flash r m).2 r₀ idx = r idx

variable {c : Config} {flash : SpiFlash} {r r' : Msrs} {m m' : Mem} {table table' : List ℕ}
  {pos idx a : ℕ} {v : BitVec 64}

/-! ### The mode -/

lemma sysCfg_not_fixed : SYS_CFG ∉ mtrrTableFixed := by decide

lemma setModEn_apply (h : idx ≠ SYS_CFG) : setModEn r idx = r idx := by
  rw [setModEn, wrmsr, Function.update_of_ne h]

lemma clearModEn_apply (h : idx ≠ SYS_CFG) : clearModEn r idx = r idx := by
  rw [clearModEn, wrmsr, Function.update_of_ne h]

lemma setModEn_sysCfg : setModEn r SYS_CFG = r SYS_CFG ||| SYSCFG_MSR_MtrrFixDramModEn := by
  simp [setModEn, wrmsr, rdmsr, sysCfg_not_fixed]

lemma clearModEn_sysCfg : clearModEn r SYS_CFG = r SYS_CFG &&& ~~~SYSCFG_MSR_MtrrFixDramModEn := by
  simp [clearModEn, wrmsr, rdmsr, sysCfg_not_fixed]

lemma modEn_setModEn : (setModEn r).ModEn := by
  intro h
  rw [setModEn_sysCfg, BitVec.and_comm, BitVec.and_or_distrib_left] at h
  have hbit := congrArg (fun v : BitVec 64 => v.getLsbD 19) h
  simp [SYSCFG_MSR_MtrrFixDramModEn] at hbit

/-- Setting the mode and clearing it again changes nothing if it was clear. -/
lemma clearModEn_setModEn (h : ¬r.ModEn) : clearModEn (setModEn r) = r := by
  funext idx
  by_cases hidx : idx = SYS_CFG
  · rw [hidx, clearModEn_sysCfg, setModEn_sysCfg]
    rw [Msrs.ModEn, not_not] at h
    apply BitVec.eq_of_getLsbD_eq
    intro i hi
    have hbit := congrArg (fun v : BitVec 64 => v.getLsbD i) h
    simp only [BitVec.getLsbD_and, BitVec.getLsbD_or, BitVec.getLsbD_not, hi, decide_true,
      Bool.true_and] at hbit ⊢
    cases hmode : SYSCFG_MSR_MtrrFixDramModEn.getLsbD i with
    | false => simp
    | true =>
      rw [hmode] at hbit
      simpa using hbit.symm
  · rw [clearModEn_apply hidx, setModEn_apply hidx]

/-- All bits of a fixed MTRR are read while the mode is on. -/
lemma rdmsr_setModEn (h : idx ∈ mtrrTableFixed) : rdmsr (setModEn r) idx = r idx := by
  have hne : idx ≠ SYS_CFG := fun heq => sysCfg_not_fixed (heq ▸ h)
  rw [rdmsr, if_neg (fun hhidden => hhidden.2 modEn_setModEn), setModEn_apply hne]

lemma rdmsr_of_not_fixed (h : idx ∉ mtrrTableFixed) : rdmsr r idx = r idx :=
  if_neg fun hhidden => h hhidden.1

lemma var_not_fixed : ∀ idx ∈ mtrrTableVar, idx ∉ mtrrTableFixed := by decide

/-! ### What is stored -/

lemma Stores.congr (h : Stores m r table pos) (heq : ∀ idx ∈ table, r' idx = r idx) :
    Stores m r' table pos := by
  induction table generalizing pos with
  | nil => trivial
  | cons idx table ih =>
    rw [List.forall_mem_cons] at heq
    exact ⟨h.1.trans heq.1.symm, ih h.2 heq.2⟩

lemma stores_congr (heq : ∀ idx ∈ table, r' idx = r idx) :
    Stores m r' table pos ↔ Stores m r table pos :=
  ⟨fun h => h.congr fun idx hidx => (heq idx hidx).symm, fun h => h.congr heq⟩

lemma stores_append :
    Stores m r (table ++ table') pos ↔
      Stores m r table pos ∧ Stores m r table' (pos + 8 * table.length) := by
  induction table generalizing pos with
  | nil => simp [Stores]
  | cons idx table ih =>
    have hnext : pos + 8 + 8 * table.length = pos + 8 * (idx :: table).length := by
      rw [List.length_cons]
      omega
    rw [List.cons_append, Stores, Stores, ih, hnext, and_assoc]

lemma Stores.mem_congr (h : Stores m r table pos)
    (heq : ∀ a, pos ≤ a → a < pos + 8 * table.length → m' a = m a) : Stores m' r table pos := by
  induction table generalizing pos with
  | nil => trivial
  | cons idx table ih =>
    rw [List.length_cons] at heq
    refine ⟨?_, ih h.2 fun a hle hlt => heq a (by omega) (by omega)⟩
    rw [← h.1, msrAt, msrAt, Mem.readLE_congr fun a hle hlt => heq a hle (by omega)]

/-! ### Checking -/

/-- The registers of the table match, or the check stops. -/
lemma checkLoop_cases (hfits : pos + 8 * table.length < 2 ^ 32) :
    (Stores m (rdmsr r) table pos ∧ checkLoop r m table pos = (false, pos + 8 * table.length)) ∨
      (¬Stores m (rdmsr r) table pos ∧ (checkLoop r m table pos).1 = true) := by
  induction table generalizing pos with
  | nil => exact Or.inl ⟨trivial, rfl⟩
  | cons idx table ih =>
    rw [List.length_cons] at hfits ⊢
    rw [checkLoop, Stores]
    by_cases hsame : rdmsr r idx = msrAt m pos
    · rw [if_neg (not_not.mpr hsame), Word.add_eq (by omega)]
      have hrest : pos + 8 + 8 * table.length < 2 ^ 32 := by omega
      rcases ih hrest with ⟨hstores, hloop⟩ | ⟨hnot, hloop⟩
      · refine Or.inl ⟨⟨hsame.symm, hstores⟩, ?_⟩
        rw [hloop]
        congr 1
        omega
      · exact Or.inr ⟨fun h => hnot h.2, hloop⟩
    · rw [if_pos hsame]
      exact Or.inr ⟨fun h => hsame h.1.symm, rfl⟩

/-- The area matches and the registers are as before, or a fixed MTRR does not match and the mode is
on, or another register does not match. -/
lemma checkSavedMtrrData_cases (hfits : c.mtrrPos + S3_DATA_MTRR_SIZE ≤ 2 ^ 32) (hr : ¬r.ModEn) :
    (Matches c m r ∧ checkSavedMtrrData r m c.mtrrPos = (false, r)) ∨
      (¬Stores m r mtrrTableFixed c.mtrrPos ∧
        checkSavedMtrrData r m c.mtrrPos = (true, setModEn r)) ∨
      (Stores m r mtrrTableFixed c.mtrrPos ∧ ¬Matches c m r ∧
        checkSavedMtrrData r m c.mtrrPos = (true, r)) := by
  have hfixed : mtrrTableFixed.length = 11 := rfl
  have hvar : mtrrTableVar.length = 19 := rfl
  have hsize : S3_DATA_MTRR_SIZE = 4096 := rfl
  have hread : Stores m (rdmsr (setModEn r)) mtrrTableFixed c.mtrrPos ↔
      Stores m r mtrrTableFixed c.mtrrPos := stores_congr fun idx hidx => rdmsr_setModEn hidx
  have hread' : ∀ pos, Stores m (rdmsr r) mtrrTableVar pos ↔ Stores m r mtrrTableVar pos :=
    fun pos => stores_congr fun idx hidx => rdmsr_of_not_fixed (var_not_fixed idx hidx)
  rw [checkSavedMtrrData, Matches, stores_append]
  rcases @checkLoop_cases (setModEn r) m mtrrTableFixed c.mtrrPos (by omega) with
    ⟨hstores, hloop⟩ | ⟨hnot, hloop⟩
  · rw [hread] at hstores
    simp only [hloop, Bool.false_eq_true, if_false, clearModEn_setModEn hr]
    rcases @checkLoop_cases r m mtrrTableVar (c.mtrrPos + 8 * mtrrTableFixed.length) (by omega) with
      ⟨hstores', hloop'⟩ | ⟨hnot', hloop'⟩
    · rw [hread'] at hstores'
      exact Or.inl ⟨⟨hstores, hstores'⟩, by rw [hloop']⟩
    · rw [hread'] at hnot'
      exact Or.inr (Or.inr ⟨hstores, fun h => hnot' h.2, by rw [hloop']⟩)
  · rw [hread] at hnot
    simp only [hloop, if_true]
    exact Or.inr (Or.inl ⟨hnot, trivial⟩)

/-! ### Writing -/

/-- A register that is written to erased cells is stored there. -/
lemma writeMtrr_spec (h : flash.Area c.mtrrPos) (hfits : c.mtrrPos + S3_DATA_MTRR_SIZE ≤ 2 ^ 32)
    (hstart : c.mtrrPos ≤ pos) (hstop : pos + 8 ≤ c.mtrrPos + S3_DATA_MTRR_SIZE)
    (herased : ∀ a, pos ≤ a → a < pos + 8 → m a = 0xff) :
    msrAt (writeMtrr c flash r idx pos m) pos = rdmsr r idx ∧
      ∀ a, a < pos ∨ pos + 8 ≤ a → writeMtrr c flash r idx pos m a = m a := by
  have hburned : writeMtrr c flash r idx pos m = burned (msrData (rdmsr r idx)) 0 8 m pos := by
    simp only [writeMtrr]
    split_ifs with hlen
    · exact h.write _ _ _ hstart (by simpa using hstop)
    · rw [Word.add_eq (by omega), h.write _ _ _ hstart (by rw [length_bytes]; omega),
        h.write _ _ _ (by omega) (by rw [length_bytes]; omega)]
      exact (burned_add (n := 4) (i := 4)).symm
  rw [hburned]
  refine ⟨?_, fun a ha => burned_frame ha⟩
  have hbytes : ∀ i < 8, burned (msrData (rdmsr r idx)) 0 8 m pos (pos + i) =
      msrData (rdmsr r idx) (0 + i) := by
    intro i hi
    have herase : m = m.memset pos 0xff 8 := by
      funext a
      by_cases ha : pos ≤ a ∧ a < pos + 8
      · rw [Mem.memset, if_pos ha, herased a ha.1 ha.2]
      · rw [Mem.memset, if_neg ha]
    rw [herase]
    exact burned_erased hi le_rfl
  rw [msrAt, Mem.readLE_shift hbytes, msrData, Mem.readLE_writeLE (rdmsr r idx).isLt,
    BitVec.ofNat_toNat, BitVec.setWidth_eq]

lemma writeMtrrs_spec (h : flash.Area c.mtrrPos) (hfits : c.mtrrPos + S3_DATA_MTRR_SIZE ≤ 2 ^ 32)
    (hstart : c.mtrrPos ≤ pos) (hstop : pos + 8 * table.length < c.mtrrPos + S3_DATA_MTRR_SIZE)
    (herased : ∀ a, pos ≤ a → a < pos + 8 * table.length → m a = 0xff) :
    (writeMtrrs c flash r table pos m).1 = pos + 8 * table.length ∧
      Stores (writeMtrrs c flash r table pos m).2 (rdmsr r) table pos ∧
      ∀ a, a < pos ∨ pos + 8 * table.length ≤ a → (writeMtrrs c flash r table pos m).2 a = m a := by
  induction table generalizing pos m with
  | nil => exact ⟨rfl, trivial, fun _ _ => rfl⟩
  | cons idx table ih =>
    rw [List.length_cons] at hstop herased ⊢
    obtain ⟨hstored, hframe⟩ := @writeMtrr_spec c flash r m pos idx h hfits hstart (by omega)
      fun a hle hlt => herased a hle (by omega)
    obtain ⟨hpos, hrest, hframe'⟩ := @ih (writeMtrr c flash r idx pos m) (pos + 8) (by omega)
      (by omega) fun a hle hlt => by
        rw [hframe a (Or.inr hle)]
        exact herased a (by omega) (by omega)
    rw [writeMtrrs, Word.add_eq (by omega)]
    refine ⟨by rw [hpos]; omega, ⟨?_, hrest⟩, fun a ha => ?_⟩
    · rw [← hstored, msrAt, msrAt, Mem.readLE_congr fun a _ hlt => hframe' a (Or.inl (by omega))]
    · rw [hframe' a (by omega), hframe a (by omega)]

/-- Registers that are written are stored, and with the mode switched on and off they are those from
before. -/
lemma written_matches (h : flash.Area c.mtrrPos) (hfits : c.mtrrPos + S3_DATA_MTRR_SIZE ≤ 2 ^ 32)
    (m : Mem) :
    Matches c (writeMtrrs c flash r mtrrTableVar
      (writeMtrrs c flash (setModEn r) mtrrTableFixed c.mtrrPos
        (flash.erase m c.mtrrPos S3_DATA_MTRR_SIZE)).1
      (writeMtrrs c flash (setModEn r) mtrrTableFixed c.mtrrPos
        (flash.erase m c.mtrrPos S3_DATA_MTRR_SIZE)).2).2 r := by
  have hfixed : mtrrTableFixed.length = 11 := rfl
  have hvar : mtrrTableVar.length = 19 := rfl
  have hsize : S3_DATA_MTRR_SIZE = 4096 := rfl
  have herased : ∀ a, c.mtrrPos ≤ a → a < c.mtrrPos + S3_DATA_MTRR_SIZE →
      flash.erase m c.mtrrPos S3_DATA_MTRR_SIZE a = 0xff := by
    intro a hle hlt
    rw [h.erase, Mem.memset, if_pos ⟨hle, hlt⟩]
  generalize flash.erase m c.mtrrPos S3_DATA_MTRR_SIZE = erased at herased ⊢
  obtain ⟨hpos, hstores, hframe⟩ := @writeMtrrs_spec c flash (setModEn r) erased mtrrTableFixed
    c.mtrrPos h hfits le_rfl (by omega) fun a hle hlt => herased a hle (by omega)
  obtain ⟨-, hstores', hframe'⟩ := @writeMtrrs_spec c flash r
    (writeMtrrs c flash (setModEn r) mtrrTableFixed c.mtrrPos erased).2 mtrrTableVar
    (c.mtrrPos + 8 * mtrrTableFixed.length) h hfits (by omega) (by omega) fun a hle hlt => by
      rw [hframe a (Or.inr hle)]
      exact herased a (by omega) (by omega)
  rw [hpos, Matches, stores_append]
  constructor
  · refine Stores.congr (hstores.mem_congr fun a _ hlt => hframe' a (Or.inl hlt)) ?_
    exact fun idx hidx => (rdmsr_setModEn hidx).symm
  · exact hstores'.congr fun idx hidx => (rdmsr_of_not_fixed (var_not_fixed idx hidx)).symm

/-! ### Restoring -/

/-- The registers of a table are written with all their bits. -/
lemma restoreLoop_eq (h : Stores m r table pos) (hnodup : table.Nodup) (r₀ : Msrs)
    (hmode : ∀ idx ∈ table, idx ∈ mtrrTableFixed → SYS_CFG ∉ table ∧ r₀.ModEn) :
    restoreLoop m table pos r₀ =
      (pos + 8 * table.length, fun idx => if idx ∈ table then r idx else r₀ idx) := by
  induction table generalizing pos r₀ with
  | nil => simp [restoreLoop]
  | cons idx table ih =>
    obtain ⟨hidx, hnodup⟩ := List.nodup_cons.mp hnodup
    have hwrite : wrmsr r₀ idx (msrAt m pos) = Function.update r₀ idx (r idx) := by
      rw [wrmsr, if_neg fun hhidden => hhidden.2 (hmode idx (by simp) hhidden.1).2, h.1]
    rw [restoreLoop, hwrite, ih h.2 hnodup _ fun i hi hfixed => ?_]
    · refine Prod.ext (by simp only [List.length_cons]; omega) (funext fun i => ?_)
      by_cases hi : i ∈ table
      · simp [hi]
      · by_cases heq : i = idx
        · simp [heq, hidx]
        · simp [hi, heq]
    · obtain ⟨hsys, hmode⟩ := hmode i (by simp [hi]) hfixed
      rw [List.mem_cons, not_or] at hsys
      refine ⟨hsys.2, ?_⟩
      rwa [Msrs.ModEn, Function.update_of_ne hsys.1]

/-- A restore from an area that matches writes back the registers. -/
lemma restoreMtrr_of_matches (h : Matches c m r) (r₀ : Msrs) {idx : ℕ}
    (hidx : idx ∈ mtrrTableFixed ++ mtrrTableVar) : restoreMtrr c m r₀ idx = r idx := by
  rw [Matches, stores_append] at h
  have hfixed := restoreLoop_eq h.1 (by decide) (setModEn r₀)
    fun _ _ _ => ⟨sysCfg_not_fixed, modEn_setModEn⟩
  have hvar := fun r₁ => restoreLoop_eq h.2 (by decide) r₁
    fun idx hidx hmem => absurd hmem (var_not_fixed idx hidx)
  rw [restoreMtrr, hfixed, hvar]
  dsimp only
  split_ifs with hmem
  · rfl
  · have hmem' : idx ∈ mtrrTableFixed := (List.mem_append.mp hidx).resolve_right hmem
    have hne : idx ≠ SYS_CFG := fun heq => sysCfg_not_fixed (heq ▸ hmem')
    rw [clearModEn_apply hne, if_pos hmem']

/-! ### The whole function -/

/-- What is left in the area when the registers are written to it. -/
def writtenArea (c : Config) (flash : SpiFlash) (r : Msrs) (m : Mem) : Mem :=
  let fixed := writeMtrrs c flash (setModEn r) mtrrTableFixed c.mtrrPos
    (flash.erase m c.mtrrPos S3_DATA_MTRR_SIZE)
  (writeMtrrs c flash r mtrrTableVar fixed.1 fixed.2).2

lemma oemAgesaSaveMtrr_of_match {flash : Option SpiFlash}
    (h : checkSavedMtrrData r m c.mtrrPos = (false, r')) :
    oemAgesaSaveMtrr c flash r m = (r', m) := by
  unfold oemAgesaSaveMtrr
  rw [h]
  rfl

lemma oemAgesaSaveMtrr_none (h : checkSavedMtrrData r m c.mtrrPos = (true, r')) :
    oemAgesaSaveMtrr c none r m = (r', m) := by
  unfold oemAgesaSaveMtrr
  rw [h]
  rfl

/-- Where a flash is written, the mode is cleared again. -/
lemma oemAgesaSaveMtrr_some (h : checkSavedMtrrData r m c.mtrrPos = (true, r'))
    (hset : setModEn r' = setModEn r) (hr : ¬r.ModEn) :
    oemAgesaSaveMtrr c (some flash) r m = (r, writtenArea c flash r m) := by
  unfold oemAgesaSaveMtrr
  rw [h]
  simp only [Bool.not_true, Bool.false_eq_true, if_false, hset, clearModEn_setModEn hr, writtenArea]

lemma setModEn_setModEn : setModEn (setModEn r) = setModEn r := by
  funext idx
  by_cases hidx : idx = SYS_CFG
  · rw [hidx, setModEn_sysCfg, setModEn_sysCfg, BitVec.or_assoc, BitVec.or_self]
  · rw [setModEn_apply hidx]

/-- What holds if the registers are as before and the area matches them, or there is no flash. -/
lemma SavedMtrr.of_eq {flash : Option SpiFlash} (h : oemAgesaSaveMtrr c flash r m = (r, m'))
    (hr : ¬r.ModEn) (hmatch : flash.isSome ∨ Matches c m r → Matches c m' r) :
    SavedMtrr c flash r m := by
  refine ⟨?_, fun idx _ => ?_, fun hcond r₀ idx hidx => ?_⟩
  · rwa [h]
  · rw [h]
  · rw [h]
    exact restoreMtrr_of_matches (hmatch hcond) r₀ hidx

/-- The mode is off and the registers can be restored exactly if a flash is found or the area matches
the fixed MTRRs. -/
theorem savedMtrr_iff {flash : Option SpiFlash} (hflash : ∀ f ∈ flash, f.Area c.mtrrPos)
    (hfits : c.mtrrPos + S3_DATA_MTRR_SIZE ≤ 2 ^ 32) (hr : ¬r.ModEn) (m : Mem) :
    SavedMtrr c flash r m ↔ flash.isSome ∨ Stores m r mtrrTableFixed c.mtrrPos := by
  have hwritten : ∀ f ∈ flash, Matches c (writtenArea c f r m) r :=
    fun f hf => written_matches (hflash f hf) hfits m
  rcases @checkSavedMtrrData_cases c r m hfits hr with
    ⟨hmatch, hcheck⟩ | ⟨hnot, hcheck⟩ | ⟨hstores, hnot, hcheck⟩
  · refine iff_of_true ?_ (Or.inr (stores_append.mp hmatch).1)
    exact SavedMtrr.of_eq (oemAgesaSaveMtrr_of_match hcheck) hr fun _ => hmatch
  · cases flash with
    | some f =>
      refine iff_of_true ?_ (Or.inl rfl)
      exact SavedMtrr.of_eq (oemAgesaSaveMtrr_some hcheck setModEn_setModEn hr) hr
        fun _ => hwritten f rfl
    | none =>
      -- the check has set the mode, and there is nobody to clear it
      refine iff_of_false (fun h => ?_) fun hcond => hnot (hcond.resolve_left Bool.false_ne_true)
      have hmode := h.modEn
      rw [oemAgesaSaveMtrr_none hcheck] at hmode
      exact hmode modEn_setModEn
  · refine iff_of_true ?_ (Or.inr hstores)
    cases flash with
    | some f =>
      exact SavedMtrr.of_eq (oemAgesaSaveMtrr_some hcheck rfl hr) hr fun _ => hwritten f rfl
    | none =>
      exact SavedMtrr.of_eq (oemAgesaSaveMtrr_none hcheck) hr
        fun hcond => absurd (hcond.resolve_left Bool.false_ne_true) hnot

/-- Registers that differ from an area of zeros. -/
def exampleMsrs : Msrs := fun idx => if idx = SYS_CFG then 0 else BitVec.ofNat 64 idx

theorem savedMtrr_iff_norFlash :
    SavedMtrr ⟨0xFFFF0000, 4, by decide⟩ (some (norFlash 0x1000 (by decide))) exampleMsrs
      fun _ => 0 := by
  have hflash : ∀ f ∈ some (norFlash 0x1000 (by decide)),
      f.Area (Config.mtrrPos ⟨0xFFFF0000, 4, by decide⟩) := by
    intro f hf
    obtain rfl := Option.some.inj hf
    exact ⟨fun _ => rfl, fun _ _ _ _ _ => rfl⟩
  exact (savedMtrr_iff hflash (by decide) (by decide) _).mpr (Or.inl rfl)

/-- No flash is found after the first fixed MTRR has not matched. -/
theorem not_savedMtrr : ¬SavedMtrr ⟨0xFFFF0000, 4, by decide⟩ none exampleMsrs fun _ => 0 := by
  intro h
  exact h.modEn (by decide)

end ApuBios.S3Resume
