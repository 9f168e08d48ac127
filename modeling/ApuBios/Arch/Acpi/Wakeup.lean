import ApuBios.Library.Word
import ApuBios.Arch.Acpi.Tables
import ApuBios.Library.CString

/-!
# Waking up

Model of `acpi_find_wakeup_vector` of `arch/x86/boot/acpi.c`, and of what it relies on: the tables
that `write_acpi_tables` of the mainboard has written before the system went to sleep, and the copy
of the RSDP that `write_tables` has put into low memory. The vector that the operating system has
stored is found again (`acpiFindWakeupVector_writeAcpi`).
-/

namespace ApuBios.Acpi

open Mem Checksum

/-! ### The tables that are written -/

/-- "RSD PTR " -/
def RSDP_SIG : List UInt8 := [0x52, 0x53, 0x44, 0x20, 0x50, 0x54, 0x52, 0x20]

/-- "CORE  " -/
def OEM_ID : List UInt8 := [0x43, 0x4f, 0x52, 0x45, 0x20, 0x20]

/-- "COREBOOT" -/
def ACPI_TABLE_CREATOR : List UInt8 := [0x43, 0x4f, 0x52, 0x45, 0x42, 0x4f, 0x4f, 0x54]

/-- "CORE" -/
def ASLC : List UInt8 := [0x43, 0x4f, 0x52, 0x45]

/-- `sizeof(acpi_rsdp_t)`; its checksums are at the offsets 8 and 32, its addresses at 16 and 24. -/
def sizeofRsdp : ℕ := 36

/-- `sizeof(acpi_rsdt_t)` -/
def sizeofRsdt : ℕ := sizeofHeader + 4 * MAX_ACPI_TABLES

/-- `sizeof(acpi_facs_t)`; the waking vector is at offset 12. -/
def sizeofFacs : ℕ := 64

/-- `sizeof(acpi_fadt_t)`; `firmware_ctrl` and `dsdt` are behind the header. -/
def sizeofFadt : ℕ := 244

def acpiWriteRsdp (m : Mem) (rsdp rsdt xsdt : ℕ) : Mem :=
  let m := memset m rsdp 0 sizeofRsdp
  let m := writeBytes m rsdp RSDP_SIG
  let m := writeBytes m (rsdp + 9) OEM_ID
  let m := writeLE m (rsdp + 20) 4 sizeofRsdp
  let m := writeLE m (rsdp + 16) 4 rsdt
  let m := writeLE m (rsdp + 24) 8 xsdt
  let m := Function.update m (rsdp + 15) (if xsdt = 0 then 0 else 2)
  let m := Function.update m (rsdp + 8) (acpiChecksum m rsdp 20)
  Function.update m (rsdp + 32) (acpiChecksum m rsdp sizeofRsdp)

/-- What the functions that write tables do alike with the names in a header. -/
def writeHeader (m : Mem) (header : ℕ) (signature : List UInt8) : Mem :=
  let m := writeBytes m header signature
  let m := writeBytes m (header + 10) OEM_ID
  let m := writeBytes m (header + 16) ACPI_TABLE_CREATOR
  writeBytes m (header + 28) ASLC

/-- "RSDT" -/
def rsdtSignature : List UInt8 := [0x52, 0x53, 0x44, 0x54]

/-- "FACS" -/
def facsSignature : List UInt8 := [0x46, 0x41, 0x43, 0x53]

/-- "FACP" -/
def fadtSignature : List UInt8 := [0x46, 0x41, 0x43, 0x50]

def acpiWriteRsdt (m : Mem) (rsdt : ℕ) : Mem :=
  let m := writeHeader m rsdt rsdtSignature
  let m := writeLE m (rsdt + 4) 4 sizeofRsdt
  let m := Function.update m (rsdt + 8) 1
  Function.update m (rsdt + 9) (acpiChecksum m rsdt sizeofRsdt)

def acpiCreateFacs (m : Mem) (facs : ℕ) : Mem :=
  let m := memset m facs 0 sizeofFacs
  let m := writeBytes m facs facsSignature
  let m := writeLE m (facs + 4) 4 sizeofFacs
  let m := writeLE m (facs + 12) 4 0
  Function.update m (facs + 32) 1

/-- `acpi_create_fadt` of the southbridge; `rest` are the members behind `dsdt`. -/
def acpiCreateFadt (m : Mem) (fadt facs dsdt : ℕ) (rest : List UInt8) : Mem :=
  let m := memset m fadt 0 sizeofFadt
  let m := writeHeader m fadt fadtSignature
  let m := writeLE m (fadt + 4) 4 sizeofFadt
  let m := Function.update m (fadt + 8) 4
  let m := writeLE m (fadt + 36) 4 facs
  let m := writeLE m (fadt + 40) 4 dsdt
  let m := writeBytes m (fadt + 44) rest
  Function.update m (fadt + 9) (acpiChecksum m fadt sizeofFadt)

/-- What the tables of a mainboard hold. The ones behind the FADT come with the power of two that they
are aligned to, and AGESA does not have to provide all of them. -/
structure Board where
  dsdt : List UInt8
  fadtRest : List UInt8
  tables : List (ℕ × Option (List UInt8))
  length_fadtRest : fadtRest.length = 200

/-- A table is put at the next aligned address and added to the RSDT. -/
def putTable (rsdp : Rsdp) (s : Mem × ℕ) (table : ℕ × Option (List UInt8)) : Mem × ℕ :=
  let current := Word.alignUp 32 s.2 (2 ^ table.1)
  match table.2 with
  | none => (s.1, current)
  | some bytes => (acpiAddTable rsdp (writeBytes s.1 current bytes) current, current + bytes.length)

/-- `write_acpi_tables`; the end of the tables is given back. -/
def writeAcpiTables (m : Mem) (start : ℕ) (b : Board) : Mem × ℕ :=
  let start := Word.alignUp 32 start 16
  let rsdp := start
  let rsdt := start + sizeofRsdp
  let current := rsdt + sizeofRsdt
  let m := memset m start 0 (current - start)
  let m := acpiWriteRsdp m rsdp rsdt 0
  let m := acpiWriteRsdt m rsdt
  let dsdt := Word.alignUp 32 current 8
  let m := writeBytes m dsdt b.dsdt
  let facs := Word.alignUp 32 (dsdt + b.dsdt.length) 8
  let m := acpiCreateFacs m facs
  let fadt := Word.alignUp 32 (facs + sizeofFacs) 8
  let m := acpiCreateFadt m fadt facs dsdt b.fadtRest
  let m := acpiAddTable ⟨rsdt, 0⟩ m fadt
  b.tables.foldl (putTable ⟨rsdt, 0⟩) (m, fadt + sizeofFadt)

/-- The loop of `write_tables` that looks for the RSDP, with the turns that are left. -/
def findSignature (m : Mem) (acpiStart : ℕ) : ℕ → Option ℕ
  | 0 => none
  | n + 1 =>
    if slice m acpiStart RSDP_SIG.length = RSDP_SIG then some acpiStart
    else findSignature m (acpiStart + 1) n

/-- The part of `write_tables` for ACPI: the tables are put into high memory, and a copy of the RSDP
into low memory. -/
def writeAcpi (m : Mem) (highTablePointer romTableEnd : ℕ) (b : Board) : Mem :=
  let romTableEnd := Word.alignUp 32 romTableEnd 16
  let r := writeAcpiTables m highTablePointer b
  match findSignature r.1 highTablePointer (r.2 - highTablePointer) with
  | none => r.1
  | some highRsdp =>
    acpiWriteRsdp r.1 romTableEnd (readLE r.1 (highRsdp + 16) 4) (readLE r.1 (highRsdp + 24) 8 % 2 ^ 32)

/-! ### Looking for the vector -/

def validRsdp (m : Mem) (rsdp : ℕ) : Bool :=
  slice m rsdp RSDP_SIG.length = RSDP_SIG ∧ acpiChecksum m rsdp 20 = 0 ∧
    ¬ (1 < m (rsdp + 15) ∧ acpiChecksum m rsdp (readLE m (rsdp + 20) 4) ≠ 0)

/-- The loop that looks for the RSDP. -/
def findRsdp (m : Mem) (p : ℕ) : ℕ → Option ℕ
  | 0 => none
  | n + 1 => if validRsdp m p then some p else findRsdp m (p + 16) n

/-- The loop that looks for the FADT, up to the end of the RSDT. -/
def findFadt (m : Mem) (rsdt end_ : ℕ) (i : ℕ) : ℕ → Option ℕ
  | 0 => none
  | n + 1 =>
    if rsdt + sizeofHeader + 4 * i < end_ then
      if slice m (entry m rsdt 4 i) 4 = fadtSignature then some (entry m rsdt 4 i)
      else findFadt m rsdt end_ (i + 1) n
    else none

def acpiIsWakeup (acpiSlpType : ℕ) : Prop := acpiSlpType = 3 ∨ acpiSlpType = 2

instance (acpiSlpType : ℕ) : Decidable (acpiIsWakeup acpiSlpType) :=
  inferInstanceAs (Decidable (_ ∨ _))

/-- `NULL` is 0. -/
def acpiFindWakeupVector (m : Mem) (acpiSlpType : ℕ) : ℕ :=
  if ¬ acpiIsWakeup acpiSlpType then 0
  else
    match findRsdp m 0xe0000 ((0xfffff - 0xe0000 + 15) / 16) with
    | none => 0
    | some rsdp =>
      let rsdt := readLE m (rsdp + 16) 4
      match findFadt m rsdt (rsdt + lengthField m rsdt) 0 (lengthField m rsdt) with
      | none => 0
      | some fadt =>
        let facs := readLE m (fadt + 36) 4
        if facs = 0 then 0 else readLE m (facs + 12) 4

variable {m m' : Mem} {rsdp rsdt xsdt header facs fadt dsdt table p a x k n j : ℕ} {b : Board}

/-! ### What a function leaves alone -/

lemma acpiWriteRsdp_frame (ha : a < rsdp ∨ rsdp + sizeofRsdp ≤ a) :
    acpiWriteRsdp m rsdp rsdt xsdt a = m a := by
  rw [sizeofRsdp] at ha
  simp only [acpiWriteRsdp]
  rw [Function.update_of_ne (by omega), Function.update_of_ne (by omega),
    Function.update_of_ne (by omega), writeLE_frame (by omega), writeLE_frame (by omega),
    writeLE_frame (by omega), writeBytes_frame (by simp [OEM_ID]; omega),
    writeBytes_frame (by simp [RSDP_SIG]; omega), memset_frame (by rw [sizeofRsdp]; omega)]

lemma writeHeader_frame {signature : List UInt8} (hlen : signature.length = 4)
    (ha : a < header ∨ header + sizeofHeader ≤ a) : writeHeader m header signature a = m a := by
  rw [sizeofHeader] at ha
  simp only [writeHeader]
  rw [writeBytes_frame (by simp [ASLC]; omega),
    writeBytes_frame (by simp [ACPI_TABLE_CREATOR]; omega),
    writeBytes_frame (by simp [OEM_ID]; omega), writeBytes_frame (by omega)]

lemma acpiWriteRsdt_frame (ha : a < rsdt ∨ rsdt + sizeofHeader ≤ a) : acpiWriteRsdt m rsdt a = m a := by
  have hheader := ha
  rw [sizeofHeader] at ha
  simp only [acpiWriteRsdt]
  rw [Function.update_of_ne (by omega), Function.update_of_ne (by omega), writeLE_frame (by omega),
    writeHeader_frame rfl hheader]

lemma acpiCreateFacs_frame (ha : a < facs ∨ facs + sizeofFacs ≤ a) : acpiCreateFacs m facs a = m a := by
  rw [sizeofFacs] at ha
  simp only [acpiCreateFacs]
  rw [Function.update_of_ne (by omega), writeLE_frame (by omega), writeLE_frame (by omega),
    writeBytes_frame (by simp [facsSignature]; omega), memset_frame (by rw [sizeofFacs]; omega)]

lemma acpiCreateFadt_frame {rest : List UInt8} (hrest : rest.length = 200)
    (ha : a < fadt ∨ fadt + sizeofFadt ≤ a) : acpiCreateFadt m fadt facs dsdt rest a = m a := by
  rw [sizeofFadt] at ha
  simp only [acpiCreateFadt]
  rw [Function.update_of_ne (by omega), writeBytes_frame (by omega), writeLE_frame (by omega),
    writeLE_frame (by omega), Function.update_of_ne (by omega), writeLE_frame (by omega),
    writeHeader_frame rfl (by rw [sizeofHeader]; omega), memset_frame (by rw [sizeofFadt]; omega)]

lemma acpiAddTable_frame (ha : a < rsdt ∨ tableEnd rsdt 4 ≤ a) :
    acpiAddTable ⟨rsdt, 0⟩ m table a = m a := by
  have hnone : ¬ (⟨rsdt, 0⟩ : Rsdp).xsdt ≠ 0 := fun h => h rfl
  simp only [acpiAddTable, if_neg hnone]
  split_ifs with hfull
  · rfl
  · exact enter_frame (not_le.mp hfull) ha

/-! ### The RSDP -/

/-- What `acpi_write_rsdp` has written when there is no XSDT. -/
structure Points (m : Mem) (rsdp rsdt : ℕ) : Prop where
  signature : Holds m rsdp RSDP_SIG
  rsdt : readLE m (rsdp + 16) 4 = rsdt
  xsdt : readLE m (rsdp + 24) 8 = 0
  revision : m (rsdp + 15) = 0
  checksum : acpiChecksum m rsdp 20 = 0

lemma acpiChecksum_congr (h : ∀ a, table ≤ a → a < table + n → m' a = m a) :
    acpiChecksum m' table n = acpiChecksum m table n := by
  have hloop : acpiChecksumLoop m' n table 0 = acpiChecksumLoop m n table 0 := by
    apply UInt8.toNat_inj.1
    rw [acpiChecksumLoop_eq, acpiChecksumLoop_eq, total_congr h]
  rw [acpiChecksum, acpiChecksum, hloop]

/-- A table with its checksum sums up to zero. -/
lemma acpiChecksum_stored {q : ℕ} (hq : q < n) (hzero : m (table + q) = 0) :
    acpiChecksum (Function.update m (table + q) (acpiChecksum m table n)) table n = 0 := by
  have hsum := @acpiChecksum_add m table n
  apply UInt8.toNat_inj.1
  rw [acpiChecksum, UInt8.toNat_neg, acpiChecksumLoop_eq, total_checksum hq hzero, UInt8.toNat_zero,
    Nat.zero_add, hsum]
  rfl

lemma Points.congr (h : Points m rsdp rsdt) (heq : ∀ a, rsdp ≤ a → a < rsdp + sizeofRsdp → m' a = m a) :
    Points m' rsdp rsdt := by
  have hsize : sizeofRsdp = 36 := rfl
  have hlen : RSDP_SIG.length = 8 := rfl
  refine ⟨h.signature.congr fun a ha ha' => heq a ha (by omega), ?_, ?_, ?_, ?_⟩
  · rw [← h.rsdt]
    exact readLE_congr fun a ha ha' => heq a (by omega) (by omega)
  · rw [← h.xsdt]
    exact readLE_congr fun a ha ha' => heq a (by omega) (by omega)
  · rw [heq _ (by omega) (by omega), h.revision]
  · rw [← h.checksum]
    exact acpiChecksum_congr fun a ha ha' => heq a ha (by omega)

lemma acpiWriteRsdp_points (hrsdt : rsdt < 2 ^ 32) :
    Points (acpiWriteRsdp m rsdp rsdt 0) rsdp rsdt := by
  obtain ⟨m₁, hm₁⟩ : ∃ m₁, m₁ = Function.update (writeLE (writeLE (writeLE (writeBytes (writeBytes
    (memset m rsdp 0 sizeofRsdp) rsdp RSDP_SIG) (rsdp + 9) OEM_ID) (rsdp + 20) 4 sizeofRsdp)
    (rsdp + 16) 4 rsdt) (rsdp + 24) 8 0) (rsdp + 15) 0 := ⟨_, rfl⟩
  obtain ⟨m₂, hm₂⟩ : ∃ m₂, m₂ = Function.update m₁ (rsdp + 8) (acpiChecksum m₁ rsdp 20) := ⟨_, rfl⟩
  have hwrite : acpiWriteRsdp m rsdp rsdt 0 =
      Function.update m₂ (rsdp + 32) (acpiChecksum m₂ rsdp sizeofRsdp) := by
    rw [hm₂, hm₁]
    rfl
  have hlen : RSDP_SIG.length = 8 := rfl
  -- the checksums are stored last, apart from everything else
  have hsame : ∀ a, a ≠ rsdp + 8 → a ≠ rsdp + 32 → acpiWriteRsdp m rsdp rsdt 0 a = m₁ a :=
    fun a h₁ h₂ => by rw [hwrite, Function.update_of_ne h₂, hm₂, Function.update_of_ne h₁]
  have hzero : m₁ (rsdp + 8) = 0 := by
    rw [hm₁, Function.update_of_ne (by omega), writeLE_frame (by omega), writeLE_frame (by omega),
      writeLE_frame (by omega), writeBytes_frame (by omega), writeBytes_frame (by omega), memset,
      if_pos (by rw [sizeofRsdp]; omega)]
  refine ⟨?_, ?_, ?_, ?_, ?_⟩
  · have hheld : Holds (writeBytes (memset m rsdp 0 sizeofRsdp) rsdp RSDP_SIG) rsdp RSDP_SIG :=
      holds_writeBytes
    refine hheld.congr fun a ha ha' => ?_
    rw [hsame a (by omega) (by omega), hm₁, Function.update_of_ne (by omega), writeLE_frame (by omega),
      writeLE_frame (by omega), writeLE_frame (by omega), writeBytes_frame (by omega)]
  · have hread : readLE (acpiWriteRsdp m rsdp rsdt 0) (rsdp + 16) 4 = readLE (writeLE (writeLE
        (writeBytes (writeBytes (memset m rsdp 0 sizeofRsdp) rsdp RSDP_SIG) (rsdp + 9) OEM_ID)
        (rsdp + 20) 4 sizeofRsdp) (rsdp + 16) 4 rsdt) (rsdp + 16) 4 := by
      refine readLE_congr fun a ha ha' => ?_
      rw [hsame a (by omega) (by omega), hm₁, Function.update_of_ne (by omega), writeLE_frame (by omega)]
    rw [hread]
    exact readLE_writeLE hrsdt
  · have hread : readLE (acpiWriteRsdp m rsdp rsdt 0) (rsdp + 24) 8 = readLE (writeLE (writeLE (writeLE
        (writeBytes (writeBytes (memset m rsdp 0 sizeofRsdp) rsdp RSDP_SIG) (rsdp + 9) OEM_ID)
        (rsdp + 20) 4 sizeofRsdp) (rsdp + 16) 4 rsdt) (rsdp + 24) 8 0) (rsdp + 24) 8 := by
      refine readLE_congr fun a ha ha' => ?_
      rw [hsame a (by omega) (by omega), hm₁, Function.update_of_ne (by omega)]
    rw [hread]
    exact readLE_writeLE (by decide)
  · rw [hsame _ (by omega) (by omega), hm₁, Function.update_self]
  · have hfirst : acpiChecksum (acpiWriteRsdp m rsdp rsdt 0) rsdp 20 = acpiChecksum m₂ rsdp 20 := by
      refine acpiChecksum_congr fun a ha ha' => ?_
      rw [hwrite, Function.update_of_ne (by omega)]
    rw [hfirst, hm₂]
    exact acpiChecksum_stored (by decide) hzero

lemma Points.valid (h : Points m rsdp rsdt) : validRsdp m rsdp := by
  have hrevision : ¬ 1 < m (rsdp + 15) := by
    rw [h.revision]
    decide
  simp only [validRsdp, decide_eq_true_eq]
  exact ⟨h.signature.slice_eq, h.checksum, fun hlater => hrevision hlater.1⟩

/-! ### The tables -/

/-- The tables in high memory: the FADT is the first one that the RSDT lists, and it points to the
FACS. -/
structure Ready (m : Mem) (rsdp fadt facs : ℕ) : Prop where
  points : Points m rsdp (rsdp + sizeofRsdp)
  tables : ∃ l, Lists m (rsdp + sizeofRsdp) 4 (fadt :: l) ∧
    lengthField m (rsdp + sizeofRsdp) = sizeofHeader + 4 * (l.length + 1) ∧
    l.length < MAX_ACPI_TABLES ∧ ∀ address ∈ fadt :: l, address ≠ 0
  signature : Holds m fadt fadtSignature
  firmwareCtrl : readLE m (fadt + 36) 4 = facs

lemma Ready.congr (h : Ready m rsdp fadt facs)
    (hhead : ∀ a, rsdp ≤ a → a < tableEnd (rsdp + sizeofRsdp) 4 → m' a = m a)
    (hfadt : ∀ a, fadt ≤ a → a < fadt + sizeofFadt → m' a = m a) : Ready m' rsdp fadt facs := by
  obtain ⟨l, hlists, hlength, hle, hne⟩ := h.tables
  have hend : tableEnd (rsdp + sizeofRsdp) 4 = rsdp + sizeofRsdp + 164 := rfl
  have hlen : fadtSignature.length = 4 := rfl
  have hsize : sizeofFadt = 244 := rfl
  refine ⟨h.points.congr fun a ha ha' => hhead a ha (by omega), ⟨l, ?_, ?_, hle, hne⟩, ?_, ?_⟩
  · exact hlists.congr fun a ha ha' => hhead a (by omega) ha'
  · rw [← hlength]
    exact readLE_congr fun a ha ha' => hhead a (by omega) (by omega)
  · exact h.signature.congr fun a ha ha' => hfadt a ha (by omega)
  · rw [← h.firmwareCtrl]
    exact readLE_congr fun a ha ha' => hfadt a (by omega) (by omega)

/-- Adding a table to the RSDT keeps the tables in order. -/
lemma Ready.acpiAddTable (h : Ready m rsdp fadt facs) (hfadt : tableEnd (rsdp + sizeofRsdp) 4 ≤ fadt)
    (htable : table ≠ 0) (hlt : table < 2 ^ 32) :
    Ready (acpiAddTable ⟨rsdp + sizeofRsdp, 0⟩ m table) rsdp fadt facs := by
  obtain ⟨l, hlists, hlength, hle, hne⟩ := h.tables
  have hend : tableEnd (rsdp + sizeofRsdp) 4 = rsdp + sizeofRsdp + 164 := rfl
  have hlen : fadtSignature.length = 4 := rfl
  have hnone : ¬ (⟨rsdp + sizeofRsdp, 0⟩ : Rsdp).xsdt ≠ 0 := fun h => h rfl
  have hlisted : Listed ⟨rsdp + sizeofRsdp, 0⟩ m (fadt :: l) := ⟨hlists, fun h => absurd h hnone⟩
  refine ⟨h.points.congr fun a _ ha => acpiAddTable_frame (.inl ha), ?_, ?_, ?_⟩
  · rcases Nat.lt_or_ge (l.length + 1) MAX_ACPI_TABLES with hroom | hfull
    · obtain ⟨hlisted', hsealed⟩ := acpiAddTable_listed hlisted hne (fun h => absurd h hnone) hroom hlt
      refine ⟨l ++ [table], hlisted'.rsdt, ?_, ?_, ?_⟩
      · rw [List.length_append, List.length_singleton]
        refine hsealed.rsdt.length.trans ?_
        simp
      · rwa [List.length_append, List.length_singleton]
      · rw [← List.cons_append]
        exact List.forall_mem_append.2 ⟨hne, by simpa using htable⟩
    · rw [acpiAddTable_full hlisted hne (by simp only [List.length_cons]; omega)]
      exact ⟨l, hlists, hlength, hle, hne⟩
  · exact h.signature.congr fun a ha _ => acpiAddTable_frame (.inr (hfadt.trans ha))
  · rw [← h.firmwareCtrl]
    exact readLE_congr fun a ha _ => acpiAddTable_frame (.inr (by omega))

/-! ### The place of the tables -/

lemma alignUp_bounds {c : ℕ} (hc : c = 2 ^ k) (hx : x + c ≤ 2 ^ 32) :
    x ≤ Word.alignUp 32 x c ∧ Word.alignUp 32 x c < x + c := by
  subst hc
  have hk : k ≤ 32 := (Nat.pow_le_pow_iff_right (by decide)).1 ((Nat.le_add_left _ x).trans hx)
  rw [Word.alignUp_eq hk (Word.roundUp_lt.trans_le hx)]
  exact ⟨Word.le_roundUp, Word.roundUp_lt⟩

/-- Enough memory for a table, wherever it is put. -/
def tableRoom (table : ℕ × Option (List UInt8)) : ℕ := 2 ^ table.1 + (table.2.getD []).length

/-- Enough memory for all tables of the mainboard. -/
def Board.room (b : Board) : ℕ :=
  sizeofRsdp + sizeofRsdt + 8 + b.dsdt.length + 8 + sizeofFacs + 8 + sizeofFadt +
    (b.tables.map tableRoom).sum

/-- Where the DSDT, the FACS and the FADT are. -/
def dsdtAt (start : ℕ) : ℕ := Word.alignUp 32 (start + sizeofRsdp + sizeofRsdt) 8

def Board.facsAt (b : Board) (start : ℕ) : ℕ := Word.alignUp 32 (dsdtAt start + b.dsdt.length) 8

def Board.fadtAt (b : Board) (start : ℕ) : ℕ := Word.alignUp 32 (b.facsAt start + sizeofFacs) 8

/-- The tables lie one behind the other. -/
structure Board.Placed (b : Board) (start : ℕ) : Prop where
  dsdt : start + sizeofRsdp + sizeofRsdt ≤ dsdtAt start
  facs : dsdtAt start + b.dsdt.length ≤ b.facsAt start
  fadt : b.facsAt start + sizeofFacs ≤ b.fadtAt start
  room : b.fadtAt start + sizeofFadt + (b.tables.map tableRoom).sum ≤ 2 ^ 32

lemma Board.placed {start : ℕ} (hfits : start + b.room ≤ 2 ^ 32) : b.Placed start := by
  rw [Board.room] at hfits
  obtain ⟨hd, hd'⟩ : start + sizeofRsdp + sizeofRsdt ≤ dsdtAt start ∧
      dsdtAt start < start + sizeofRsdp + sizeofRsdt + 8 :=
    alignUp_bounds (k := 3) rfl (by omega)
  obtain ⟨hs, hs'⟩ : dsdtAt start + b.dsdt.length ≤ b.facsAt start ∧
      b.facsAt start < dsdtAt start + b.dsdt.length + 8 :=
    alignUp_bounds (k := 3) rfl (by omega)
  obtain ⟨hf, hf'⟩ : b.facsAt start + sizeofFacs ≤ b.fadtAt start ∧
      b.fadtAt start < b.facsAt start + sizeofFacs + 8 :=
    alignUp_bounds (k := 3) rfl (by omega)
  exact ⟨hd, hs, hf, by omega⟩

/-! ### Writing the tables -/

/-- The tables behind the FADT keep what is before them. -/
lemma putTable_ready {s : Mem × ℕ} {t : ℕ × Option (List UInt8)}
    (h : Ready s.1 rsdp fadt facs) (hfadt : tableEnd (rsdp + sizeofRsdp) 4 ≤ fadt)
    (hcurrent : fadt + sizeofFadt ≤ s.2) (hroom : s.2 + tableRoom t ≤ 2 ^ 32) :
    Ready (putTable ⟨rsdp + sizeofRsdp, 0⟩ s t).1 rsdp fadt facs ∧
      fadt + sizeofFadt ≤ (putTable ⟨rsdp + sizeofRsdp, 0⟩ s t).2 ∧
      (putTable ⟨rsdp + sizeofRsdp, 0⟩ s t).2 ≤ s.2 + tableRoom t := by
  obtain ⟨k, bytes⟩ := t
  rw [tableRoom] at hroom ⊢
  have hsize : sizeofFadt = 244 := rfl
  dsimp only at hroom ⊢
  obtain ⟨hle, hlt⟩ := alignUp_bounds (x := s.2) (k := k) rfl (by omega)
  cases bytes with
  | none => exact ⟨h, hcurrent.trans hle, by dsimp only [putTable]; omega⟩
  | some bytes =>
    rw [Option.getD_some] at hroom ⊢
    have hbytes : Ready (writeBytes s.1 (Word.alignUp 32 s.2 (2 ^ k)) bytes) rsdp fadt facs :=
      h.congr (fun a _ ha => writeBytes_frame (.inl (by omega)))
        fun a _ ha => writeBytes_frame (.inl (by omega))
    have hpos : Word.alignUp 32 s.2 (2 ^ k) ≠ 0 := by omega
    have hbound : Word.alignUp 32 s.2 (2 ^ k) < 2 ^ 32 := by omega
    refine ⟨hbytes.acpiAddTable hfadt hpos hbound, ?_, ?_⟩
    · dsimp only [putTable]
      omega
    · dsimp only [putTable]
      omega

lemma putTables_ready {s : Mem × ℕ} {ts : List (ℕ × Option (List UInt8))}
    (h : Ready s.1 rsdp fadt facs) (hfadt : tableEnd (rsdp + sizeofRsdp) 4 ≤ fadt)
    (hcurrent : fadt + sizeofFadt ≤ s.2) (hroom : s.2 + (ts.map tableRoom).sum ≤ 2 ^ 32) :
    Ready (ts.foldl (putTable ⟨rsdp + sizeofRsdp, 0⟩) s).1 rsdp fadt facs ∧
      fadt + sizeofFadt ≤ (ts.foldl (putTable ⟨rsdp + sizeofRsdp, 0⟩) s).2 := by
  induction ts generalizing s with
  | nil => exact ⟨h, hcurrent⟩
  | cons t ts ih =>
    rw [List.map_cons, List.sum_cons] at hroom
    have ht : s.2 + tableRoom t ≤ 2 ^ 32 := by omega
    obtain ⟨hnext, hcurrent', hle⟩ := putTable_ready h hfadt hcurrent ht
    exact ih hnext hcurrent' (by omega)

lemma acpiCreateFadt_reads {rest : List UInt8} (hfacs : facs < 2 ^ 32) :
    Holds (acpiCreateFadt m fadt facs dsdt rest) fadt fadtSignature ∧
      readLE (acpiCreateFadt m fadt facs dsdt rest) (fadt + 36) 4 = facs := by
  have hlen : fadtSignature.length = 4 := rfl
  refine ⟨?_, ?_⟩
  · have hheld : Holds (writeBytes (memset m fadt 0 sizeofFadt) fadt fadtSignature) fadt
        fadtSignature := holds_writeBytes
    refine hheld.congr fun a ha ha' => ?_
    simp only [acpiCreateFadt, writeHeader]
    rw [Function.update_of_ne (by omega), writeBytes_frame (by omega), writeLE_frame (by omega),
      writeLE_frame (by omega), Function.update_of_ne (by omega), writeLE_frame (by omega),
      writeBytes_frame (by omega), writeBytes_frame (by omega), writeBytes_frame (by omega)]
  · have hbehind : ∀ m₁ c a, fadt + 36 ≤ a → a < fadt + 36 + 4 → Function.update (writeBytes
        (writeLE m₁ (fadt + 40) 4 dsdt) (fadt + 44) rest) (fadt + 9) c a = m₁ a := by
      intro m₁ c a ha ha'
      rw [Function.update_of_ne (by omega), writeBytes_frame (by omega), writeLE_frame (by omega)]
    exact (readLE_congr (hbehind _ _)).trans (readLE_writeLE hfacs)

/-- The FADT is the first table that is added. -/
lemma ready_first (hpoints : Points m rsdp (rsdp + sizeofRsdp))
    (hempty : Lists m (rsdp + sizeofRsdp) 4 []) (hfadt : tableEnd (rsdp + sizeofRsdp) 4 ≤ fadt)
    (hlt : fadt < 2 ^ 32) (hsignature : Holds m fadt fadtSignature)
    (hctrl : readLE m (fadt + 36) 4 = facs) :
    Ready (acpiAddTable ⟨rsdp + sizeofRsdp, 0⟩ m fadt) rsdp fadt facs := by
  have hend : tableEnd (rsdp + sizeofRsdp) 4 = rsdp + sizeofRsdp + 164 := rfl
  have hnone : ¬ (⟨rsdp + sizeofRsdp, 0⟩ : Rsdp).xsdt ≠ 0 := fun h => h rfl
  have hlisted₀ : Listed ⟨rsdp + sizeofRsdp, 0⟩ m [] := ⟨hempty, fun h => absurd h hnone⟩
  obtain ⟨hlisted, hsealed⟩ := acpiAddTable_listed hlisted₀ (by simp) (fun h => absurd h hnone)
    (by decide) hlt
  refine ⟨hpoints.congr fun a _ ha => acpiAddTable_frame (.inl ha), ?_, ?_, ?_⟩
  · exact ⟨[], hlisted.rsdt, hsealed.rsdt.length, by decide, by simpa using (by omega : fadt ≠ 0)⟩
  · exact hsignature.congr fun a ha _ => acpiAddTable_frame (.inr (hfadt.trans ha))
  · rw [← hctrl]
    exact readLE_congr fun a ha _ => acpiAddTable_frame (.inr (by omega))

variable {high low : ℕ}

/-- The memory when the FADT has been written, but not yet added. -/
def Board.firstTables (b : Board) (m : Mem) (start : ℕ) : Mem :=
  acpiCreateFadt (acpiCreateFacs (writeBytes (acpiWriteRsdt (acpiWriteRsdp
    (memset m start 0 (start + sizeofRsdp + sizeofRsdt - start)) start (start + sizeofRsdp) 0)
    (start + sizeofRsdp)) (dsdtAt start) b.dsdt) (b.facsAt start)) (b.fadtAt start) (b.facsAt start)
    (dsdtAt start) b.fadtRest

lemma writeAcpiTables_eq (hstart : Word.alignUp 32 high 16 = high) : writeAcpiTables m high b =
    b.tables.foldl (putTable ⟨high + sizeofRsdp, 0⟩) (acpiAddTable ⟨high + sizeofRsdp, 0⟩
      (b.firstTables m high) (b.fadtAt high), b.fadtAt high + sizeofFadt) := by
  simp only [writeAcpiTables, hstart, Board.firstTables, Board.fadtAt, Board.facsAt, dsdtAt]

/-- What is written behind the RSDT leaves it alone. -/
lemma firstTables_before (h : b.Placed high) (ha : a < dsdtAt high) : b.firstTables m high a =
    acpiWriteRsdt (acpiWriteRsdp (memset m high 0 (high + sizeofRsdp + sizeofRsdt - high)) high
      (high + sizeofRsdp) 0) (high + sizeofRsdp) a := by
  have hfacs := h.facs
  have hfadt := h.fadt
  rw [Board.firstTables, acpiCreateFadt_frame b.length_fadtRest (by omega),
    acpiCreateFacs_frame (by omega), writeBytes_frame (by omega)]

lemma firstTables_points (h : b.Placed high) :
    Points (b.firstTables m high) high (high + sizeofRsdp) := by
  have hdsdt := h.dsdt
  have hfacs := h.facs
  have hfadt := h.fadt
  have hroom := h.room
  have hrsdt : high + sizeofRsdp < 2 ^ 32 := by
    rw [sizeofFadt] at hroom
    omega
  refine (acpiWriteRsdp_points (m := memset m high 0 (high + sizeofRsdp + sizeofRsdt - high))
    hrsdt).congr fun a ha ha' => ?_
  rw [firstTables_before h (by omega), acpiWriteRsdt_frame (.inl ha')]

/-- The entries of the RSDT are still clear. -/
lemma firstTables_lists (h : b.Placed high) :
    Lists (b.firstTables m high) (high + sizeofRsdp) 4 [] := by
  have hdsdt := h.dsdt
  have hrsdt : sizeofRsdt = 164 := rfl
  have hheader : sizeofHeader = 36 := rfl
  have htables : MAX_ACPI_TABLES = 32 := rfl
  intro i hi
  refine (readLE_congr fun a ha ha' => ?_).trans (readLE_memset_zero (m := m) (p := high)
    (n := high + sizeofRsdp + sizeofRsdt - high) (by omega) (by omega))
  rw [firstTables_before h (by omega), acpiWriteRsdt_frame (.inr (by omega)),
    acpiWriteRsdp_frame (.inr (by omega))]

lemma alignUp_of_dvd (haligned : 16 ∣ x) (hx : x < 2 ^ 32) : Word.alignUp 32 x 16 = x := by
  have hround : Word.roundUp x 4 = x := Word.roundUp_of_dvd haligned
  have hup : Word.alignUp 32 x (2 ^ 4) = Word.roundUp x 4 := Word.alignUp_eq (by decide) (by omega)
  exact hup.trans hround

/-- All tables are written, and the RSDP in front of them leads to the FACS. -/
lemma writeAcpiTables_ready (haligned : 16 ∣ high) (hfits : high + b.room ≤ 2 ^ 32) :
    Ready (writeAcpiTables m high b).1 high (b.fadtAt high) (b.facsAt high) ∧
      b.fadtAt high + sizeofFadt ≤ (writeAcpiTables m high b).2 := by
  have hplaced := b.placed hfits
  have hdsdt := hplaced.dsdt
  have hfacs := hplaced.facs
  have hfadt := hplaced.fadt
  have hroom := hplaced.room
  have hsize : sizeofFadt = 244 := rfl
  have hend : tableEnd (high + sizeofRsdp) 4 = high + sizeofRsdp + sizeofRsdt := Nat.add_assoc _ _ _
  obtain ⟨hsignature, hctrl⟩ : Holds (b.firstTables m high) (b.fadtAt high) fadtSignature ∧
      readLE (b.firstTables m high) (b.fadtAt high + 36) 4 = b.facsAt high :=
    acpiCreateFadt_reads (by omega)
  have hstart : Word.alignUp 32 high 16 = high := alignUp_of_dvd haligned (by omega)
  have hfirst : Ready (acpiAddTable ⟨high + sizeofRsdp, 0⟩ (b.firstTables m high) (b.fadtAt high)) high
      (b.fadtAt high) (b.facsAt high) :=
    ready_first (firstTables_points hplaced) (firstTables_lists hplaced) (by omega) (by omega) hsignature
      hctrl
  obtain ⟨s, hs⟩ : ∃ s, s = (acpiAddTable ⟨high + sizeofRsdp, 0⟩ (b.firstTables m high) (b.fadtAt high),
    b.fadtAt high + sizeofFadt) := ⟨_, rfl⟩
  have hmem : s.1 = acpiAddTable ⟨high + sizeofRsdp, 0⟩ (b.firstTables m high) (b.fadtAt high) := by
    rw [hs]
  have hcurrent : s.2 = b.fadtAt high + sizeofFadt := by rw [hs]
  rw [writeAcpiTables_eq hstart, ← hs]
  rw [← hmem] at hfirst
  rw [← hcurrent] at hroom
  exact putTables_ready hfirst (by omega) hcurrent.ge hroom

/-- The copy of the RSDP is written on top of the tables. -/
lemma writeAcpi_eq (haligned : 16 ∣ high) (hfits : high + b.room ≤ 2 ^ 32) (hlow : 16 ∣ low)
    (hlt : low < 2 ^ 32) : writeAcpi m high low b =
      acpiWriteRsdp (writeAcpiTables m high b).1 low (high + sizeofRsdp) 0 := by
  obtain ⟨hready, hle⟩ := @writeAcpiTables_ready m b high haligned hfits
  obtain ⟨hdsdt, hfacs, hfadt, -⟩ := b.placed hfits
  have hsize : sizeofFadt = 244 := rfl
  have hfound : findSignature (writeAcpiTables m high b).1 high ((writeAcpiTables m high b).2 - high) =
      some high := by
    obtain ⟨n, hn⟩ : ∃ n, (writeAcpiTables m high b).2 - high = n + 1 :=
      ⟨(writeAcpiTables m high b).2 - high - 1, by omega⟩
    rw [hn, findSignature, if_pos hready.points.signature.slice_eq]
  simp only [writeAcpi, hfound, alignUp_of_dvd hlow hlt, hready.points.rsdt, hready.points.xsdt,
    Nat.zero_mod]

/-! ### Looking for them -/

lemma findRsdp_eq (hvalid : validRsdp m (p + 16 * j)) (hclear : ∀ i < j, ¬ validRsdp m (p + 16 * i))
    (hn : j < n) : findRsdp m p n = some (p + 16 * j) := by
  induction n generalizing p j with
  | zero => exact absurd hn (Nat.not_lt_zero j)
  | succ n ih =>
    rw [findRsdp]
    cases j with
    | zero =>
      rw [Nat.mul_zero, Nat.add_zero] at hvalid
      rw [if_pos hvalid, Nat.mul_zero, Nat.add_zero]
    | succ j =>
      have hfirst := hclear 0 (Nat.succ_pos j)
      rw [Nat.mul_zero, Nat.add_zero] at hfirst
      have hnext : ∀ i, p + 16 * (i + 1) = p + 16 + 16 * i := fun i => by omega
      rw [if_neg hfirst, hnext, ih]
      · rwa [← hnext]
      · intro i hi
        rw [← hnext]
        exact hclear (i + 1) (Nat.succ_lt_succ hi)
      · exact Nat.lt_of_succ_lt_succ hn

lemma Ready.findFadt (h : Ready m rsdp fadt facs) : findFadt m (rsdp + sizeofRsdp)
    (rsdp + sizeofRsdp + lengthField m (rsdp + sizeofRsdp)) 0 (lengthField m (rsdp + sizeofRsdp)) =
      some fadt := by
  obtain ⟨l, hlists, hlength, -, -⟩ := h.tables
  have hentry : entry m (rsdp + sizeofRsdp) 4 0 = fadt := hlists 0 (by decide)
  have hsignature : slice m fadt 4 = fadtSignature := h.signature.slice_eq
  rw [hlength, sizeofHeader, Nat.add_comm 36, Nat.add_right_comm, Nat.mul_add, Nat.mul_one]
  rw [Acpi.findFadt, if_pos (by rw [sizeofHeader]; omega), hentry, if_pos hsignature]

/-- After the system has slept the vector that the operating system has stored in the FACS is found,
as long as the tables and the copy of the RSDP are as they were written, and nothing below that copy
looks like one. -/
theorem acpiFindWakeupVector_writeAcpi {acpiSlpType : ℕ} (b : Board)
    (hwakeup : acpiIsWakeup acpiSlpType) (haligned : 16 ∣ high) (hhigh : 0x100000 ≤ high)
    (hfits : high + b.room ≤ 2 ^ 32) (hlow : 16 ∣ low) (hbios : 0xe0000 ≤ low)
    (hend : low + sizeofRsdp ≤ 0x100000)
    (hkept : ∀ a, (low ≤ a ∧ a < low + sizeofRsdp) ∨ (high ≤ a ∧ a < (writeAcpiTables m high b).2 ∧
      ¬ (b.facsAt high ≤ a ∧ a < b.facsAt high + sizeofFacs)) → m' a = writeAcpi m high low b a)
    (hclear : ∀ p, 16 ∣ p → 0xe0000 ≤ p → p < low → ¬ validRsdp m' p) :
    acpiFindWakeupVector m' acpiSlpType = readLE m' (b.facsAt high + 12) 4 := by
  obtain ⟨hready, hle⟩ := @writeAcpiTables_ready m b high haligned hfits
  obtain ⟨hdsdt, hfacs, hfadt, hroom⟩ := b.placed hfits
  have hrsdp : sizeofRsdp = 36 := rfl
  have hrsdt : sizeofRsdt = 164 := rfl
  have hsizeFadt : sizeofFadt = 244 := rfl
  have htable : tableEnd (high + sizeofRsdp) 4 = high + sizeofRsdp + sizeofRsdt := Nat.add_assoc _ _ _
  rw [writeAcpi_eq haligned hfits hlow (by omega)] at hkept
  -- the two places do not touch each other
  have hcopy : Points m' low (high + sizeofRsdp) :=
    (acpiWriteRsdp_points (by omega)).congr fun a ha ha' => hkept a (.inl ⟨ha, ha'⟩)
  have hhere : Ready m' high (b.fadtAt high) (b.facsAt high) := by
    refine hready.congr (fun a ha ha' => ?_) fun a ha ha' => ?_
    · rw [hkept a (.inr ⟨ha, by omega, by omega⟩), acpiWriteRsdp_frame (.inr (by omega))]
    · rw [hkept a (.inr ⟨by omega, by omega, by omega⟩), acpiWriteRsdp_frame (.inr (by omega))]
  obtain ⟨j, hj⟩ : ∃ j, low = 0xe0000 + 16 * j := by
    obtain ⟨j, rfl⟩ := hlow
    exact ⟨j - 0xe000, by omega⟩
  have hfound : findRsdp m' 0xe0000 ((0xfffff - 0xe0000 + 15) / 16) = some low := by
    rw [hj]
    refine findRsdp_eq ?_ (fun i hi => ?_) (by omega)
    · rw [← hj]
      exact hcopy.valid
    · exact hclear _ (by omega) (by omega) (by omega)
  have hctrl : ¬ b.facsAt high = 0 := by omega
  simp only [acpiFindWakeupVector, hwakeup, not_true, if_false, hfound, hcopy.rsdt, hhere.findFadt,
    hhere.firmwareCtrl, if_neg hctrl]

/-- A board without a DSDT, with one more table and one that AGESA does not provide. -/
def exampleTables : Board where
  dsdt := []
  fadtRest := List.replicate 200 0
  tables := [(3, some [0x53, 0x50, 0x43, 0x52]), (3, none)]
  length_fadtRest := List.length_replicate

/-- The operating system wants to be woken up at 0x9a000. -/
theorem acpiFindWakeupVector_writeAcpi_example :
    acpiFindWakeupVector (writeLE (writeAcpi (fun _ => 0) 0x200000 0xe0000 exampleTables)
      (exampleTables.facsAt 0x200000 + 12) 4 0x9a000) 3 = 0x9a000 := by
  have hfits : 0x200000 + exampleTables.room ≤ 2 ^ 32 := by decide
  obtain ⟨hdsdt, hfacs, -, -⟩ := exampleTables.placed hfits
  refine (acpiFindWakeupVector_writeAcpi exampleTables (.inl rfl) (by decide) (by decide) hfits
    (by decide) le_rfl (by decide) (fun a ha => writeLE_frame ?_)
    fun p _ hle hlt => absurd hlt hle.not_gt).trans (readLE_writeLE (by decide))
  rw [sizeofRsdp, sizeofFacs] at ha
  omega

end ApuBios.Acpi
