import ApuBios.Library.Checksum

/-!
# The lists of ACPI tables

Model of `acpi_add_table` of `arch/x86/boot/acpi.c`. A table is entered at the first free entry of
the RSDT, and at the same index of the XSDT where there is one. After every call both list the tables
that were added, and their lengths and checksums are right.
-/

namespace ApuBios.Acpi

open Mem Checksum

/-- The addresses in `acpi_rsdp_t`. -/
structure Rsdp where
  rsdtAddress : ℕ
  xsdtAddress : ℕ

/-- `sizeof(acpi_header_t)`, with the length at offset 4 and the checksum at offset 9. -/
def sizeofHeader : ℕ := 36

def MAX_ACPI_TABLES : ℕ := 32

/-- The loop of `acpi_checksum`. -/
def acpiChecksumLoop (m : Mem) : (length table : ℕ) → (ret : UInt8) → UInt8
  | 0, _, ret => ret
  | length + 1, table, ret => acpiChecksumLoop m length (table + 1) (ret + m table)

def acpiChecksum (m : Mem) (table length : ℕ) : UInt8 := -acpiChecksumLoop m length table 0

/-- `entry[i]` of a table with entries of the given width. -/
def entry (m : Mem) (table width i : ℕ) : ℕ := readLE m (table + sizeofHeader + width * i) width

def lengthField (m : Mem) (table : ℕ) : ℕ := readLE m (table + 4) 4

/-- The index of the first entry of the RSDT that is 0, or the number of entries. -/
def freeEntryLoop (m : Mem) (rsdt : ℕ) : (rounds i : ℕ) → ℕ
  | 0, i => i
  | rounds + 1, i => if entry m rsdt 4 i = 0 then i else freeEntryLoop m rsdt rounds (i + 1)

/-- What is done alike to both tables: the entry, the length and the checksum are stored. -/
def enter (m : Mem) (table width i address : ℕ) : Mem :=
  let m := writeLE m (table + sizeofHeader + width * i) width address
  let m := writeLE m (table + 4) 4 (sizeofHeader + width * (i + 1))
  let m := Function.update m (table + 9) 0
  Function.update m (table + 9) (acpiChecksum m table (lengthField m table))

/-- The pointer to the XSDT, which is 0 if there is none. -/
def Rsdp.xsdt (rsdp : Rsdp) : ℕ := if rsdp.xsdtAddress ≠ 0 then rsdp.xsdtAddress % 2 ^ 32 else 0

def acpiAddTable (rsdp : Rsdp) (m : Mem) (table : ℕ) : Mem :=
  let i := freeEntryLoop m rsdp.rsdtAddress MAX_ACPI_TABLES 0
  if MAX_ACPI_TABLES ≤ i then
    m
  else
    let m := enter m rsdp.rsdtAddress 4 i (table % 2 ^ 32)
    if rsdp.xsdt ≠ 0 then enter m rsdp.xsdt 8 i (table % 2 ^ 32) else m

/-- The memory after calls of `acpi_add_table`. -/
def run (rsdp : Rsdp) (m : Mem) (tables : List ℕ) : Mem := tables.foldl (acpiAddTable rsdp) m

/-! ### What the tables are to hold -/

/-- The end of the entry array. -/
def tableEnd (table width : ℕ) : ℕ := table + sizeofHeader + width * MAX_ACPI_TABLES

/-- The entries are those of the list, and the ones behind them are free. -/
def Lists (m : Mem) (table width : ℕ) (l : List ℕ) : Prop :=
  ∀ i < MAX_ACPI_TABLES, entry m table width i = l[i]?.getD 0

/-- The length covers the header and the entries, and the bytes that it covers sum up to zero. -/
structure Sealed (m : Mem) (table width : ℕ) (l : List ℕ) : Prop where
  length : lengthField m table = sizeofHeader + width * l.length
  sum : total (fun _ => 1) m table (lengthField m table) % 256 = 0

/-- The two tables do not overlap. -/
def Rsdp.Apart (rsdp : Rsdp) : Prop :=
  tableEnd rsdp.rsdtAddress 4 ≤ rsdp.xsdt ∨ tableEnd rsdp.xsdt 8 ≤ rsdp.rsdtAddress

/-- Both tables list the addresses. -/
structure Listed (rsdp : Rsdp) (m : Mem) (l : List ℕ) : Prop where
  rsdt : Lists m rsdp.rsdtAddress 4 l
  xsdt : rsdp.xsdt ≠ 0 → Lists m rsdp.xsdt 8 l

/-- Both tables have the length and the checksum for the addresses. -/
structure BothSealed (rsdp : Rsdp) (m : Mem) (l : List ℕ) : Prop where
  rsdt : Sealed m rsdp.rsdtAddress 4 l
  xsdt : rsdp.xsdt ≠ 0 → Sealed m rsdp.xsdt 8 l

variable {rsdp : Rsdp} {m m' : Mem} {table width i n address a : ℕ} {l tables : List ℕ}

/-! ### The checksum -/

lemma acpiChecksumLoop_eq (ret : UInt8) :
    (acpiChecksumLoop m n table ret).toNat = (ret.toNat + total (fun _ => 1) m table n) % 256 := by
  induction n generalizing table ret with
  | zero =>
    have := ret.toNat_lt
    simp [acpiChecksumLoop, total_zero, Nat.mod_eq_of_lt this]
  | succ n ih =>
    have hfirst : total (fun _ => 1) m table (n + 1) =
        (m table).toNat + total (fun _ => 1) m (table + 1) n := by
      rw [Nat.add_comm n, total_add, total_succ, total_zero]
      simp
    rw [acpiChecksumLoop, ih, hfirst, UInt8.toNat_add]
    omega

/-- The checksum makes the sum zero. -/
lemma acpiChecksum_add :
    (total (fun _ => 1) m table n + (acpiChecksum m table n).toNat) % 256 = 0 := by
  have hloop := @acpiChecksumLoop_eq m table n 0
  rw [acpiChecksum, UInt8.toNat_neg, hloop, UInt8.toNat_zero]
  simp only [UInt8.size]
  omega

/-! ### Entering a table -/

lemma enter_frame (hi : i < MAX_ACPI_TABLES) (ha : a < table ∨ tableEnd table width ≤ a) :
    enter m table width i address a = m a := by
  have hentry : width * i + width ≤ width * MAX_ACPI_TABLES := by
    rw [← Nat.mul_succ]
    exact Nat.mul_le_mul_left _ hi
  simp only [tableEnd, sizeofHeader] at ha
  simp only [enter, sizeofHeader]
  rw [Function.update_of_ne (by omega), Function.update_of_ne (by omega), writeLE_frame (by omega),
    writeLE_frame (by omega)]

/-- Only the header and the entry itself are changed. -/
lemma enter_entries (ha : table + sizeofHeader ≤ a) :
    enter m table width i address a =
      writeLE m (table + sizeofHeader + width * i) width address a := by
  simp only [sizeofHeader] at ha
  simp only [enter]
  rw [Function.update_of_ne (by omega), Function.update_of_ne (by omega), writeLE_frame (by omega)]

lemma Lists.congr (h : Lists m table width l)
    (heq : ∀ a, table ≤ a → a < tableEnd table width → m' a = m a) : Lists m' table width l := by
  intro i hi
  rw [← h i hi]
  have hentry : width * i + width ≤ width * MAX_ACPI_TABLES := by
    rw [← Nat.mul_succ]
    exact Nat.mul_le_mul_left _ hi
  exact readLE_congr fun a hle hlt => heq a (by omega) (by rw [tableEnd]; omega)

lemma Sealed.congr (h : Sealed m table width l) (hl : l.length ≤ MAX_ACPI_TABLES)
    (heq : ∀ a, table ≤ a → a < tableEnd table width → m' a = m a) : Sealed m' table width l := by
  have hend : sizeofHeader + width * l.length ≤ sizeofHeader + width * MAX_ACPI_TABLES :=
    Nat.add_le_add_left (Nat.mul_le_mul_left _ hl) _
  have hheader : lengthField m' table = lengthField m table := by
    refine readLE_congr fun a hle hlt => heq a (by omega) ?_
    simp only [tableEnd, sizeofHeader]
    omega
  refine ⟨hheader.trans h.length, ?_⟩
  rw [hheader, total_congr fun a hle hlt => heq a hle ?_, h.sum]
  rw [h.length] at hlt
  rw [tableEnd]
  omega

/-- The entry is added to the list. -/
lemma enter_lists (h : Lists m table width l) (haddress : address < 256 ^ width) :
    Lists (enter m table width l.length address) table width (l ++ [address]) := by
  intro i hi
  have heq : entry (enter m table width l.length address) table width i =
      entry (writeLE m (table + sizeofHeader + width * l.length) width address) table width i :=
    readLE_congr fun a hle _ => enter_entries (by omega)
  rw [heq]
  rcases lt_trichotomy i l.length with hlt | rfl | hgt
  · have hbefore : width * i + width ≤ width * l.length := by
      rw [← Nat.mul_succ]
      exact Nat.mul_le_mul_left _ hlt
    rw [entry, readLE_writeLE_disjoint (Or.inl (by omega)), List.getElem?_append_left hlt]
    exact h i hi
  · rw [entry, readLE_writeLE haddress]
    simp
  · have hbehind : width * l.length + width ≤ width * i := by
      rw [← Nat.mul_succ]
      exact Nat.mul_le_mul_left _ hgt
    have hnone : ∀ l' : List ℕ, l'.length ≤ i → l'[i]?.getD 0 = 0 := by
      intro l' hl'
      simp [hl']
    rw [entry, readLE_writeLE_disjoint (Or.inr (by omega)), hnone _ (by simpa using hgt),
      ← hnone l hgt.le]
    exact h i hi

lemma enter_sealed (hl : l.length < MAX_ACPI_TABLES) (hwidth : width ≤ 8) :
    Sealed (enter m table width l.length address) table width (l ++ [address]) := by
  obtain ⟨m₁, hm₁⟩ : ∃ m₁, m₁ = Function.update (writeLE (writeLE m (table + sizeofHeader +
    width * l.length) width address) (table + 4) 4 (sizeofHeader + width * (l.length + 1)))
    (table + 9) 0 := ⟨_, rfl⟩
  have henter : enter m table width l.length address =
      Function.update m₁ (table + 9) (acpiChecksum m₁ table (lengthField m₁ table)) := by
    rw [enter, ← hm₁]
  have hsmall : width * (l.length + 1) ≤ 8 * 32 := Nat.mul_le_mul hwidth hl
  have hlength₁ : lengthField m₁ table = sizeofHeader + width * (l.length + 1) := by
    have hread : lengthField m₁ table = readLE (writeLE (writeLE m (table + sizeofHeader +
        width * l.length) width address) (table + 4) 4 (sizeofHeader + width * (l.length + 1)))
        (table + 4) 4 := by
      refine readLE_congr fun a hle hlt => ?_
      rw [hm₁, Function.update_of_ne (by omega)]
    rw [hread, readLE_writeLE]
    simp only [sizeofHeader]
    omega
  have hlength : lengthField (enter m table width l.length address) table =
      lengthField m₁ table := by
    refine readLE_congr fun a hle hlt => ?_
    rw [henter, Function.update_of_ne (by omega)]
  refine ⟨?_, ?_⟩
  · rw [hlength, hlength₁]
    simp
  · have hinside : 9 < lengthField m₁ table := by
      rw [hlength₁, sizeofHeader]
      omega
    have hzero : m₁ (table + 9) = 0 := by
      rw [hm₁, Function.update_self]
    rw [hlength, henter, total_checksum hinside hzero]
    exact acpiChecksum_add

/-! ### The calls -/

lemma freeEntryLoop_eq (h : Lists m table 4 l) (hne : ∀ address ∈ l, address ≠ 0)
    (hl : l.length ≤ MAX_ACPI_TABLES) {rounds : ℕ} (hi : i ≤ l.length)
    (hrounds : i + rounds = MAX_ACPI_TABLES) : freeEntryLoop m table rounds i = l.length := by
  induction rounds generalizing i with
  | zero =>
    rw [freeEntryLoop]
    omega
  | succ rounds ih =>
    rw [freeEntryLoop, h i (by omega)]
    rcases hi.lt_or_eq with hlt | rfl
    · have hused : l[i]?.getD 0 ≠ 0 := by
        rw [List.getElem?_eq_getElem hlt]
        exact hne _ (List.getElem_mem hlt)
      rw [if_neg hused]
      exact ih hlt (by omega)
    · simp

/-- A call adds the table to both lists. -/
lemma acpiAddTable_listed (h : Listed rsdp m l) (hne : ∀ address ∈ l, address ≠ 0)
    (hapart : rsdp.xsdt ≠ 0 → rsdp.Apart) (hl : l.length < MAX_ACPI_TABLES)
    (haddress : address < 2 ^ 32) :
    Listed rsdp (acpiAddTable rsdp m address) (l ++ [address]) ∧
      BothSealed rsdp (acpiAddTable rsdp m address) (l ++ [address]) := by
  have hfree := freeEntryLoop_eq h.rsdt hne hl.le (Nat.zero_le _) (Nat.zero_add _)
  have hlists := enter_lists h.rsdt (by omega : address < 256 ^ 4)
  have hsealed := @enter_sealed m rsdp.rsdtAddress 4 address l hl (by decide)
  rw [acpiAddTable, hfree, Nat.mod_eq_of_lt haddress, if_neg (by omega)]
  by_cases hxsdt : rsdp.xsdt = 0
  · rw [if_neg (by simpa using hxsdt)]
    exact ⟨⟨hlists, fun hne => absurd hxsdt hne⟩, ⟨hsealed, fun hne => absurd hxsdt hne⟩⟩
  · rw [if_pos hxsdt]
    have hdisj := hapart hxsdt
    rw [Rsdp.Apart] at hdisj
    -- what is stored in one table leaves the other one alone
    have hfirst : Lists (enter m rsdp.rsdtAddress 4 l.length address) rsdp.xsdt 8 l :=
      (h.xsdt hxsdt).congr fun a hle hlt => enter_frame hl (by omega)
    have hsecond : ∀ a, rsdp.rsdtAddress ≤ a → a < tableEnd rsdp.rsdtAddress 4 →
        enter (enter m rsdp.rsdtAddress 4 l.length address) rsdp.xsdt 8 l.length address a =
          enter m rsdp.rsdtAddress 4 l.length address a :=
      fun a hle hlt => enter_frame hl (by omega)
    exact ⟨⟨hlists.congr hsecond, fun _ => enter_lists hfirst (by omega)⟩,
      ⟨hsealed.congr (by simpa using hl) hsecond, fun _ => enter_sealed hl le_rfl⟩⟩

/-- A call with no free entry changes nothing. -/
lemma acpiAddTable_full (h : Listed rsdp m l) (hne : ∀ address ∈ l, address ≠ 0)
    (hl : l.length = MAX_ACPI_TABLES) : acpiAddTable rsdp m address = m := by
  have hfree := freeEntryLoop_eq h.rsdt hne hl.le (Nat.zero_le _) (Nat.zero_add _)
  rw [acpiAddTable, hfree, if_pos hl.ge]

lemma run_concat : run rsdp m (tables ++ [address]) = acpiAddTable rsdp (run rsdp m tables) address := by
  rw [run, run, List.foldl_append]
  rfl

/-- After every call the two tables list the addresses that were added, as far as there are entries
for them, and have the length and the checksum for them. Once all entries are used, a further call
changes nothing. -/
theorem run_listed (hempty : Listed rsdp m []) (hapart : rsdp.xsdt ≠ 0 → rsdp.Apart)
    (htables : ∀ address ∈ tables, 0 < address ∧ address < 2 ^ 32) :
    Listed rsdp (run rsdp m tables) (tables.take MAX_ACPI_TABLES) ∧
      (tables ≠ [] → BothSealed rsdp (run rsdp m tables) (tables.take MAX_ACPI_TABLES)) ∧
      (MAX_ACPI_TABLES ≤ tables.length →
        ∀ address, acpiAddTable rsdp (run rsdp m tables) address = run rsdp m tables) := by
  have hne : ∀ address ∈ tables.take MAX_ACPI_TABLES, address ≠ 0 :=
    fun address h => (htables address (List.mem_of_mem_take h)).1.ne'
  suffices h : Listed rsdp (run rsdp m tables) (tables.take MAX_ACPI_TABLES) ∧
      (tables ≠ [] → BothSealed rsdp (run rsdp m tables) (tables.take MAX_ACPI_TABLES)) from
    ⟨h.1, h.2, fun hfull address => acpiAddTable_full h.1 hne (by simpa using hfull)⟩
  clear hne
  -- by induction on the calls, with the last one taken off
  induction tables using List.reverseRecOn with
  | nil => exact ⟨hempty, fun h => absurd rfl h⟩
  | append_singleton tables address ih =>
    obtain ⟨hlisted, hsealed⟩ := ih fun address h => htables address (by simp [h])
    have haddress := htables address (by simp)
    have hne : ∀ address ∈ tables.take MAX_ACPI_TABLES, address ≠ 0 :=
      fun address h => (htables address (by simp [List.mem_of_mem_take h])).1.ne'
    rw [run_concat]
    rcases Nat.lt_or_ge tables.length MAX_ACPI_TABLES with hlt | hge
    · rw [List.take_of_length_le hlt.le] at hlisted hne
      rw [List.take_of_length_le (by simpa using hlt)]
      obtain ⟨hlisted', hsealed'⟩ := acpiAddTable_listed hlisted hne hapart hlt haddress.2
      exact ⟨hlisted', fun _ => hsealed'⟩
    · rw [acpiAddTable_full hlisted hne (by simpa using hge), List.take_append_of_le_length hge]
      refine ⟨hlisted, fun _ => hsealed fun hnil => ?_⟩
      rw [hnil] at hge
      exact absurd hge (by decide)

theorem run_listed_two :
    Listed ⟨0x1000, 0x2000⟩ (run ⟨0x1000, 0x2000⟩ (fun _ => 0) [0x3000, 0x4000]) [0x3000, 0x4000] ∧
      BothSealed ⟨0x1000, 0x2000⟩ (run ⟨0x1000, 0x2000⟩ (fun _ => 0) [0x3000, 0x4000])
        [0x3000, 0x4000] := by
  have hzero : ∀ p n, readLE (fun _ => 0) p n = 0 := by
    intro p n
    induction n generalizing p with
    | zero => rfl
    | succ n ih => simp [readLE, ih]
  have hempty : Listed ⟨0x1000, 0x2000⟩ (fun _ => 0) [] :=
    ⟨fun i _ => hzero _ _, fun _ i _ => hzero _ _⟩
  have hrun := @run_listed ⟨0x1000, 0x2000⟩ (fun _ => 0) [0x3000, 0x4000] hempty
    (fun _ => Or.inl (by decide)) (by decide)
  exact ⟨hrun.1, hrun.2.1 (by simp)⟩

/-- Outside of the two tables no byte is changed. -/
theorem run_frame (hrsdt : a < rsdp.rsdtAddress ∨ tableEnd rsdp.rsdtAddress 4 ≤ a)
    (hxsdt : rsdp.xsdt ≠ 0 → a < rsdp.xsdt ∨ tableEnd rsdp.xsdt 8 ≤ a) :
    run rsdp m tables a = m a := by
  induction tables generalizing m with
  | nil => rfl
  | cons address tables ih =>
    refine ih.trans ?_
    simp only [acpiAddTable]
    split_ifs with hfull hx
    · rfl
    · exact (enter_frame (not_le.mp hfull) (hxsdt hx)).trans (enter_frame (not_le.mp hfull) hrsdt)
    · exact enter_frame (not_le.mp hfull) hrsdt

end ApuBios.Acpi
