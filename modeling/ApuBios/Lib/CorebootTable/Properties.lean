import ApuBios.Lib.CorebootTable.Records
import ApuBios.Library.Walk

/-!
# Reading the coreboot table

A table that additions are made to and that is finished is read again: its records are those that
were added, and both checksums are valid.
-/

namespace ApuBios.CorebootTable

open Mem Walk Checksum

variable {m m' : Mem} {header addr p n v : ℕ} {a : Addition} {as : List Addition}

/-! ### Checksums -/

/-- The weights are the same again behind whole words. -/
lemma ipWeight_shift {a : ℕ} (ha : a % 2 = 0) : (fun i => ipWeight (a + i)) = ipWeight := by
  funext i
  rw [ipWeight, ipWeight, Nat.add_mod, ha, Nat.zero_add, Nat.mod_mod]

lemma total_two (m : Mem) (p : ℕ) : total ipWeight m p 2 = readLE m p 2 := by
  simp only [total_succ, total_zero, readLE, ipWeight]
  simp

lemma total_add_two (m : Mem) (p n : ℕ) :
    total ipWeight m p (2 + n) = readLE m p 2 + total ipWeight m (p + 2) n := by
  rw [total_add, ipWeight_shift rfl, total_two]

lemma ipWeight_mul_le (i : ℕ) (b : UInt8) : ipWeight i * b.toNat ≤ 0xffff := by
  have := b.toNat_lt
  unfold ipWeight
  split_ifs <;> omega

lemma computeIpChecksum_eq :
    computeIpChecksum m addr n = 0xffff - rep (total ipWeight m addr n) := by
  have hsum : (List.range n).foldl
      (fun sum i => addCarry sum (ipWeight i * (m (addr + i)).toNat)) 0 =
        rep (total ipWeight m addr n) := by
    induction n with
    | zero => rfl
    | succ n ih =>
      rw [List.range_succ, List.foldl_append, List.foldl_cons, List.foldl_nil, ih,
        addCarry_rep (ipWeight_mul_le n _), total_succ]
  have hle := rep_le (s := total ipWeight m addr n)
  rw [computeIpChecksum, hsum]
  omega

lemma computeIpChecksum_congr (h : ∀ a, addr ≤ a → a < addr + n → m' a = m a) :
    computeIpChecksum m' addr n = computeIpChecksum m addr n := by
  rw [computeIpChecksum_eq, computeIpChecksum_eq, total_congr h]

/-- A stored word adds its value to a sum. -/
lemma total_writeLE (hv : v ≤ 0xffff) :
    total (fun i => ipWeight (8 + i)) (writeLE m p 4 v) p 4 = v := by
  simp only [total, Finset.sum_range_succ, Finset.sum_range_zero, writeLE, ipWeight]
  simp
  omega

/-- A header with its own checksum in it has the checksum zero. -/
lemma computeIpChecksum_stored {cleared : Mem} (h : cleared = writeLE m (header + 8) 4 0) :
    computeIpChecksum (writeLE cleared (header + 8) 4 (computeIpChecksum cleared header sizeOfHeader))
      header sizeOfHeader = 0 := by
  have hle : computeIpChecksum cleared header sizeOfHeader ≤ 0xffff := by
    rw [computeIpChecksum_eq]
    omega
  obtain ⟨stored, hstored⟩ : ∃ stored, stored =
      writeLE cleared (header + 8) 4 (computeIpChecksum cleared header sizeOfHeader) := ⟨_, rfl⟩
  have hframe : ∀ a, a < header + 8 ∨ header + 8 + 4 ≤ a → stored a = cleared a := fun a ha => by
    rw [hstored, writeLE_frame ha]
  have hsum := total_update (w := ipWeight) (p := header) 8 4 (by decide : 8 + 4 ≤ sizeOfHeader)
    (fun a _ ha => hframe a (Or.inl ha)) fun a ha _ => hframe a (Or.inr ha)
  rw [← hstored]
  rw [hstored, total_writeLE hle, ← hstored] at hsum
  rw [h, total_writeLE (Nat.zero_le _), ← h, Nat.add_zero] at hsum
  rw [computeIpChecksum_eq, hsum, computeIpChecksum_eq, rep_complement]

/-! ### The table while it is built -/

def sizes (as : List Addition) : ℕ := (as.map Addition.size).sum

@[simp] lemma sizes_append (as bs : List Addition) : sizes (as ++ bs) = sizes as + sizes bs := by
  rw [sizes, List.map_append, List.sum_append]
  rfl

@[simp] lemma sizes_singleton (a : Addition) : sizes [a] = a.size := by
  simp [sizes]

/-- A table with records, the last of which is not counted yet. -/
structure Built (m : Mem) (header : ℕ) (as : List Addition) : Prop where
  entries : tableEntries m header = as.length
  bytes : tableBytes m header = sizes as.dropLast
  segmented : Segmented (recordSize m) (lbFirstRecord header) (as.map Addition.size)

lemma mem_sizes_le (h : n ∈ as.map Addition.size) : sizeOfRecord ≤ n := by
  obtain ⟨a, -, rfl⟩ := List.mem_map.mp h
  exact a.sizeOfRecord_le

lemma length_le_sizes (as : List Addition) : as.length ≤ sizes as := by
  induction as with
  | nil => exact Nat.zero_le _
  | cons a as ih =>
    have := a.sizeOfRecord_le
    have : sizes (a :: as) = a.size + sizes as := List.sum_cons
    have : sizeOfRecord = 8 := rfl
    rw [List.length_cons]
    omega

/-- The records are those in a memory with the same contents. -/
lemma segmented_congr (h : Segmented (recordSize m) p (as.map Addition.size))
    (heq : ∀ x, p ≤ x → x < p + sizes as → m' x = m x) :
    Segmented (recordSize m') p (as.map Addition.size) := by
  refine h.congr fun q hq => ?_
  obtain ⟨hle, n, hn, hend⟩ := mem_starts hq
  have hsize : 8 ≤ n := mem_sizes_le hn
  exact readLE_congr fun x hx hx' => heq x (by omega) (by rw [sizes]; omega)

lemma Built.countLast (h : Built m header as) (hfits : sizes as < 2 ^ 32) :
    tableBytes (countLast m header) header = sizes as ∧
      ∀ x, x < header + 12 ∨ header + 16 ≤ x → CorebootTable.countLast m header x = m x := by
  have hbytes := h.bytes
  unfold CorebootTable.countLast
  rw [h.entries]
  cases as using List.reverseRecOn with
  | nil => exact ⟨hbytes, fun _ _ => rfl⟩
  | append_singleton as a =>
    rw [List.dropLast_concat] at hbytes
    have hsegmented := h.segmented
    rw [List.map_append, segmented_append] at hsegmented
    have hlast : recordSize m (lbLastRecord m header) = a.size := by
      rw [lbLastRecord, hbytes]
      exact hsegmented.2.2.1
    rw [sizes_append, sizes_singleton] at hfits ⊢
    rw [if_pos (by simp), hbytes, hlast, Word.add_eq hfits]
    exact ⟨readLE_writeLE hfits, fun x hx => writeLE_frame (by omega)⟩

/-- An addition is put behind the records, which stay as they are. -/
lemma Built.add (h : Built m header as) (a : Addition)
    (hfits : lbFirstRecord header + sizes (as ++ [a]) ≤ 2 ^ 32) :
    Built (add m header a) header (as ++ [a]) ∧
      ∀ x, lbFirstRecord header ≤ x → x < lbFirstRecord header + sizes as →
        CorebootTable.add m header a x = m x := by
  have hfirst : lbFirstRecord header = header + 24 := rfl
  have hsize : 8 ≤ a.size := a.sizeOfRecord_le
  have hlen := length_le_sizes as
  rw [sizes_append, sizes_singleton] at hfits
  obtain ⟨hbytes, hkept⟩ := h.countLast (by omega)
  have hentries : tableEntries (CorebootTable.countLast m header) header = as.length := by
    rw [← h.entries]
    exact readLE_congr fun x _ _ => hkept x (by omega)
  have hlast : lbLastRecord (CorebootTable.countLast m header) header =
      lbFirstRecord header + sizes as := by
    rw [lbLastRecord, hbytes]
    rfl
  -- what lies before the new record and is not a member of the header that is counted
  have hframe : ∀ x, x < lbFirstRecord header + sizes as → (x < header + 12 ∨ header + 24 ≤ x) →
      CorebootTable.add m header a x = m x := by
    intro x hx hout
    have hcounts : x < header + 20 ∨ header + 24 ≤ x := by omega
    rw [CorebootTable.add, lbNewRecord, hlast]
    dsimp only
    rw [a.frame _ _ _ (Or.inl hx), setSize, writeLE_frame (by omega), setTag,
      writeLE_frame (by omega), writeLE_frame hcounts, hkept x (by omega)]
  have hcount : tableBytes (CorebootTable.add m header a) header = sizes as := by
    rw [← hbytes]
    refine readLE_congr fun x hx hx' => ?_
    rw [CorebootTable.add, lbNewRecord, hlast]
    dsimp only
    rw [a.frame _ _ _ (Or.inl (by omega)), setSize, writeLE_frame (by omega), setTag,
      writeLE_frame (by omega), writeLE_frame (by omega)]
  have hnumber : tableEntries (CorebootTable.add m header a) header = as.length + 1 := by
    have hread : tableEntries (CorebootTable.add m header a) header =
        readLE (writeLE (CorebootTable.countLast m header) (header + 20) 4 (as.length + 1))
          (header + 20) 4 := by
      refine readLE_congr fun x hx hx' => ?_
      rw [CorebootTable.add, lbNewRecord, hlast, hentries, Word.add_eq (by omega)]
      dsimp only
      rw [a.frame _ _ _ (Or.inl (by omega)), setSize, writeLE_frame (by omega), setTag,
        writeLE_frame (by omega)]
    rw [hread, readLE_writeLE (by omega)]
  have hrecords : ∀ x, lbFirstRecord header ≤ x → x < lbFirstRecord header + sizes as →
      CorebootTable.add m header a x = m x := fun x hx hx' => hframe x hx' (by omega)
  refine ⟨⟨?_, ?_, ?_⟩, hrecords⟩
  · rw [hnumber, List.length_append, List.length_singleton]
  · rw [hcount, List.dropLast_concat]
  · rw [List.map_append, segmented_append]
    refine ⟨segmented_congr h.segmented hrecords, by omega, ?_, trivial⟩
    change recordSize (CorebootTable.add m header a) (lbFirstRecord header + sizes as) = a.size
    rw [CorebootTable.add, lbNewRecord, hlast]
    exact a.size_eq _ _

lemma build_append (as : List Addition) (a : Addition) :
    build m addr (as ++ [a]) = add (build m addr as) (lbTableInit m addr).2 a := by
  rw [build, build]
  exact List.foldl_append ..

lemma built_init : Built (lbTableInit m addr).1 (lbTableInit m addr).2 [] := by
  refine ⟨?_, ?_, trivial⟩
  · rw [tableEntries, lbTableInit]
    exact readLE_writeLE (by decide)
  · rw [tableBytes, lbTableInit]
    dsimp only
    rw [readLE_writeLE_disjoint (by omega), readLE_writeLE_disjoint (by omega)]
    exact readLE_writeLE (by decide)

/-- After any additions, each record holds what it held after its own addition. -/
lemma built_build (hfits : lbFirstRecord (lbTableInit m addr).2 + sizes as ≤ 2 ^ 32) :
    Built (build m addr as) (lbTableInit m addr).2 as ∧ ∀ i < as.length, ∀ x,
      lbFirstRecord (lbTableInit m addr).2 ≤ x →
      x < lbFirstRecord (lbTableInit m addr).2 + sizes (as.take (i + 1)) →
        build m addr as x = build m addr (as.take (i + 1)) x := by
  induction as using List.reverseRecOn with
  | nil => exact ⟨built_init, fun i hi => absurd hi (Nat.not_lt_zero i)⟩
  | append_singleton as a ih =>
    have hfits' := hfits
    rw [sizes_append] at hfits'
    obtain ⟨hbuilt, hrecords⟩ := ih (by omega)
    obtain ⟨hbuilt', hkept⟩ := hbuilt.add a hfits
    rw [build_append]
    refine ⟨hbuilt', fun i hi x hx hx' => ?_⟩
    rw [List.length_append, List.length_singleton] at hi
    rcases Nat.lt_succ_iff_lt_or_eq.mp hi with hlt | rfl
    · rw [List.take_append_of_le_length (show i + 1 ≤ as.length by omega)] at hx' ⊢
      have hle : sizes (as.take (i + 1)) ≤ sizes as := by
        conv_rhs => rw [← List.take_append_drop (i + 1) as]
        rw [sizes_append]
        exact Nat.le_add_right _ _
      rw [hkept x hx (by omega), hrecords i hlt x hx hx']
    · rw [List.take_of_length_le (by rw [List.length_append]; rfl), build_append]

/-! ### The finished table -/

/-- The table is read from the first record on, record by record. -/
def readTable (m : Mem) (header : ℕ) : List ℕ × ℕ :=
  walk (recordSize m) (lbFirstRecord header + tableBytes m header) (tableBytes m header)
    (lbFirstRecord header)

/-- What a reader relies on: the walk over the table `f` visits the records that were added and
ends with the table, and both checksums are valid. -/
structure Readable (m : Mem) (addr : ℕ) (as : List Addition) (f : Mem) (header : ℕ) : Prop where
  visits : readTable f header = (starts (lbFirstRecord header) (as.map Addition.size),
    lbFirstRecord header + tableBytes f header)
  entries : tableEntries f header = (readTable f header).1.length
  contents : ∀ i < as.length, ∀ x, lbFirstRecord header + sizes (as.take i) ≤ x →
    x < lbFirstRecord header + sizes (as.take (i + 1)) → f x = build m addr (as.take (i + 1)) x
  aligned : ∀ i (h : i < (readTable f header).1.length),
    (∀ a ∈ as.take i, 4 ∣ a.size) → 4 ∣ (readTable f header).1[i]
  tableValid : computeIpChecksum f (lbFirstRecord header) (tableBytes f header) =
    tableChecksum f header
  headerValid : computeIpChecksum f header sizeOfHeader = 0

/-- Every table that fits into the address space is readable once it is finished. -/
theorem lbTableFini_readable (hfits : lbFirstRecord (lbTableInit m addr).2 + sizes as ≤ 2 ^ 32) :
    Readable m addr as (lbTableFini (build m addr as) (lbTableInit m addr).2)
      (lbTableInit m addr).2 := by
  obtain ⟨hbuilt, hrecords⟩ := built_build hfits
  have haligned : 4 ∣ lbFirstRecord (lbTableInit m addr).2 := by
    have hmod : Word.alignUp 32 addr 16 % 2 ^ 4 = 0 :=
      Word.alignDown_mod (k := 4) (by decide) Word.add_lt
    have : lbFirstRecord (lbTableInit m addr).2 = Word.alignUp 32 addr 16 + 24 := rfl
    omega
  generalize (lbTableInit m addr).2 = header at hfits hbuilt hrecords haligned ⊢
  have hfirst : lbFirstRecord header = header + 24 := rfl
  obtain ⟨hbytes, hcounted⟩ := hbuilt.countLast (by omega)
  obtain ⟨checksum, hchecksum⟩ : ∃ c, c = computeIpChecksum (countLast (build m addr as) header)
    (lbFirstRecord header) (sizes as) := ⟨_, rfl⟩
  have hle : checksum ≤ 0xffff := by
    rw [hchecksum, computeIpChecksum_eq]
    omega
  obtain ⟨cleared, hcleared⟩ : ∃ c, c = writeLE (writeLE (countLast (build m addr as) header)
    (header + 16) 4 checksum) (header + 8) 4 0 := ⟨_, rfl⟩
  have hfini : lbTableFini (build m addr as) header =
      writeLE cleared (header + 8) 4 (computeIpChecksum cleared header sizeOfHeader) := by
    rw [lbTableFini, hbytes, ← hchecksum, ← hcleared]
  rw [hfini]
  have hzero := computeIpChecksum_stored hcleared
  have hframe : ∀ x, header + 12 ≤ x → x < header + 16 ∨ header + 20 ≤ x →
      writeLE cleared (header + 8) 4 (computeIpChecksum cleared header sizeOfHeader) x =
        countLast (build m addr as) header x := by
    intro x hx hout
    rw [writeLE_frame (by omega), hcleared, writeLE_frame (by omega), writeLE_frame (by omega)]
  have hstored : tableChecksum (writeLE cleared (header + 8) 4
      (computeIpChecksum cleared header sizeOfHeader)) header = checksum := by
    rw [tableChecksum, readLE_writeLE_disjoint (by omega), hcleared,
      readLE_writeLE_disjoint (by omega), readLE_writeLE (by omega)]
  generalize writeLE cleared (header + 8) 4 (computeIpChecksum cleared header sizeOfHeader) = f
    at hzero hframe hstored ⊢
  have hsame : ∀ x, lbFirstRecord header ≤ x → f x = build m addr as x := fun x hx => by
    rw [hframe x (by omega) (by omega), hcounted x (by omega)]
  have hcount : tableBytes f header = sizes as := by
    rw [← hbytes]
    exact readLE_congr fun x hx hx' => hframe x hx (by omega)
  have hsegmented := segmented_congr hbuilt.segmented fun x hx _ => hsame x hx
  have hwalk : readTable f header =
      (starts (lbFirstRecord header) (as.map Addition.size), lbFirstRecord header + sizes as) := by
    rw [readTable, hcount]
    exact hsegmented.walk_eq hsegmented.length_le
  have hentries : tableEntries f header = as.length := by
    rw [← hbuilt.entries]
    exact readLE_congr fun x hx hx' => by rw [hframe x (by omega) (by omega), hcounted x (by omega)]
  refine ⟨by rw [hwalk, hcount], ?_, fun i hi x hx hx' => ?_, fun i hi h => ?_, ?_, hzero⟩
  · rw [hentries, hwalk, length_starts, List.length_map]
  · rw [hsame x (by omega), hrecords i hi x (by omega) hx']
  · simp only [hwalk, length_starts, List.length_map] at hi ⊢
    refine dvd_starts_getElem haligned (by rwa [length_starts, List.length_map]) fun n hn => ?_
    rw [← List.map_take] at hn
    obtain ⟨a, ha, rfl⟩ := List.mem_map.mp hn
    exact h a ha
  · rw [hcount, hstored, hchecksum]
    exact computeIpChecksum_congr fun x hx _ => hframe x (by omega) (by omega)

theorem lbTableFini_readable_console :
    Readable (fun _ => 0) 0x1000 [lbForward 0x2000, lbAddConsole 5]
      (lbTableFini (build (fun _ => 0) 0x1000 [lbForward 0x2000, lbAddConsole 5])
        (lbTableInit (fun _ => 0) 0x1000).2) (lbTableInit (fun _ => 0) 0x1000).2 :=
  lbTableFini_readable (by decide)

/-! ### Around a table -/

section Frame

variable {x : ℕ}

lemma countLast_frame (hx : x < header + 12 ∨ header + 16 ≤ x) : countLast m header x = m x := by
  rw [countLast]
  split_ifs
  · exact writeLE_frame (by omega)
  · rfl

lemma lbTableInit_frame (hx : x < (lbTableInit m addr).2 ∨ lbFirstRecord (lbTableInit m addr).2 ≤ x) :
    (lbTableInit m addr).1 x = m x := by
  change x < Word.alignUp 32 addr 16 ∨ Word.alignUp 32 addr 16 + 24 ≤ x at hx
  rw [lbTableInit]
  dsimp only
  generalize Word.alignUp 32 addr 16 = header at hx ⊢
  rw [writeLE_frame (by omega), writeLE_frame (by omega), writeLE_frame (by omega),
    writeLE_frame (by omega), writeLE_frame (by omega),
    writeBytes_frame (by simp only [List.length_cons, List.length_nil]; omega)]

/-- A new record is written behind the others, and besides it only the header is changed. -/
lemma Built.add_eq (h : Built m header as) (a : Addition)
    (hfits : lbFirstRecord header + sizes (as ++ [a]) ≤ 2 ^ 32) :
    ∃ m', CorebootTable.add m header a = a.write m' (lbFirstRecord header + sizes as) ∧
      ∀ x, x < header + 12 ∨ lbFirstRecord header + sizes (as ++ [a]) ≤ x →
        CorebootTable.add m header a x = m x := by
  have hfirst : lbFirstRecord header = header + 24 := rfl
  have hsize : 8 ≤ a.size := a.sizeOfRecord_le
  rw [sizes_append, sizes_singleton] at hfits ⊢
  obtain ⟨hbytes, hkept⟩ := h.countLast (by omega)
  have hlast : lbLastRecord (CorebootTable.countLast m header) header =
      lbFirstRecord header + sizes as := by
    rw [lbLastRecord, hbytes]
    rfl
  rw [CorebootTable.add, lbNewRecord, hlast]
  refine ⟨_, rfl, fun x hx => ?_⟩
  dsimp only
  rw [a.frame _ _ _ (by omega), setSize, writeLE_frame (by omega), setTag, writeLE_frame (by omega),
    writeLE_frame (by omega), hkept x (by omega)]

lemma build_frame (hfits : lbFirstRecord (lbTableInit m addr).2 + sizes as ≤ 2 ^ 32) :
    (∀ x, x < (lbTableInit m addr).2 + 12 → build m addr as x = (lbTableInit m addr).1 x) ∧
      ∀ x, lbFirstRecord (lbTableInit m addr).2 + sizes as ≤ x → build m addr as x = m x := by
  induction as using List.reverseRecOn with
  | nil => exact ⟨fun x _ => rfl, fun x hx => lbTableInit_frame (.inr (Nat.le_of_add_right_le hx))⟩
  | append_singleton as a ih =>
    have hless : lbFirstRecord (lbTableInit m addr).2 + sizes as ≤ 2 ^ 32 := by
      rw [sizes_append] at hfits
      omega
    obtain ⟨hbefore, hbehind⟩ := ih hless
    obtain ⟨-, -, hframe⟩ := (built_build hless).1.add_eq a hfits
    rw [build_append]
    refine ⟨fun x hx => (hframe x (.inl hx)).trans (hbefore x hx), fun x hx => ?_⟩
    rw [hframe x (.inr hx)]
    rw [sizes_append] at hx
    exact hbehind x (by omega)

/-- Each record is written where the ones before it end. -/
lemma build_record (hfits : lbFirstRecord (lbTableInit m addr).2 + sizes as ≤ 2 ^ 32) {i : ℕ}
    (hi : i < as.length) :
    ∃ m', build m addr (as.take (i + 1)) =
      as[i].write m' (lbFirstRecord (lbTableInit m addr).2 + sizes (as.take i)) := by
  have htake : as.take (i + 1) = as.take i ++ [as[i]] := List.take_succ_eq_append_getElem hi
  have hall : sizes (as.take (i + 1)) ≤ sizes as := by
    conv_rhs => rw [← List.take_append_drop (i + 1) as]
    rw [sizes_append]
    exact Nat.le_add_right _ _
  rw [htake] at hall
  have hless := hall
  rw [sizes_append] at hless
  rw [htake, build_append]
  have hprefix : lbFirstRecord (lbTableInit m addr).2 + sizes (as.take i) ≤ 2 ^ 32 := by omega
  obtain ⟨m', heq, -⟩ := (built_build hprefix).1.add_eq as[i] (by omega)
  exact ⟨m', heq⟩

lemma lbTableFini_frame (hx : x < header + 8 ∨ header + 24 ≤ x) : lbTableFini m header x = m x := by
  rw [lbTableFini, writeLE_frame (by omega), writeLE_frame (by omega), writeLE_frame (by omega),
    countLast_frame (by omega)]

lemma writeTable_frame (hfits : lbFirstRecord (lbTableInit m addr).2 + sizes as ≤ 2 ^ 32) :
    (∀ x, x < (lbTableInit m addr).2 + 8 → writeTable m addr as x = (lbTableInit m addr).1 x) ∧
      ∀ x, lbFirstRecord (lbTableInit m addr).2 + sizes as ≤ x → writeTable m addr as x = m x := by
  obtain ⟨hbefore, hbehind⟩ := build_frame hfits
  have hfirst : lbFirstRecord (lbTableInit m addr).2 = (lbTableInit m addr).2 + 24 := rfl
  refine ⟨fun x hx => ?_, fun x hx => ?_⟩
  · rw [writeTable, lbTableFini_frame (.inl hx), hbefore x (by omega)]
  · rw [writeTable, lbTableFini_frame (.inr (by omega)), hbehind x hx]

/-- The records are as they were when the table was finished. -/
lemma writeTable_records (hfits : lbFirstRecord (lbTableInit m addr).2 + sizes as ≤ 2 ^ 32) {i : ℕ}
    (hi : i < as.length) (hx : lbFirstRecord (lbTableInit m addr).2 ≤ x)
    (hx' : x < lbFirstRecord (lbTableInit m addr).2 + sizes (as.take (i + 1))) :
    writeTable m addr as x = build m addr (as.take (i + 1)) x := by
  rw [writeTable, lbTableFini_frame (.inr hx)]
  exact (built_build hfits).2 i hi x hx hx'

lemma tableBytes_writeTable (hfits : lbFirstRecord (lbTableInit m addr).2 + sizes as ≤ 2 ^ 32) :
    tableBytes (writeTable m addr as) (lbTableInit m addr).2 = sizes as := by
  have hfirst : lbFirstRecord (lbTableInit m addr).2 = (lbTableInit m addr).2 + 24 := rfl
  rw [← ((built_build hfits).1.countLast (by omega)).1]
  refine readLE_congr fun x hx hx' => ?_
  rw [writeTable, lbTableFini, writeLE_frame (by omega), writeLE_frame (by omega),
    writeLE_frame (by omega)]

lemma tableEntries_writeTable (hfits : lbFirstRecord (lbTableInit m addr).2 + sizes as ≤ 2 ^ 32) :
    tableEntries (writeTable m addr as) (lbTableInit m addr).2 = as.length := by
  rw [← (built_build hfits).1.entries]
  refine readLE_congr fun x hx hx' => ?_
  rw [writeTable, lbTableFini, writeLE_frame (by omega), writeLE_frame (by omega),
    writeLE_frame (by omega), countLast_frame (by omega)]

/-- The checksum over the records is stored before the one over the header. -/
lemma writeTable_checksums (hfits : lbFirstRecord (lbTableInit m addr).2 + sizes as ≤ 2 ^ 32) :
    computeIpChecksum (writeTable m addr as) (lbTableInit m addr).2 sizeOfHeader = 0 ∧
      computeIpChecksum (writeTable m addr as) (lbFirstRecord (lbTableInit m addr).2) (sizes as) =
        tableChecksum (writeTable m addr as) (lbTableInit m addr).2 := by
  have hfirst : lbFirstRecord (lbTableInit m addr).2 = (lbTableInit m addr).2 + 24 := rfl
  have hbytes := ((built_build hfits).1.countLast (by omega)).1
  rw [writeTable, lbTableFini, hbytes]
  refine ⟨computeIpChecksum_stored rfl, ?_⟩
  have hle : computeIpChecksum (countLast (build m addr as) (lbTableInit m addr).2)
      (lbFirstRecord (lbTableInit m addr).2) (sizes as) < 256 ^ 4 := by
    rw [computeIpChecksum_eq]
    omega
  rw [tableChecksum, readLE_writeLE_disjoint (by omega), readLE_writeLE_disjoint (by omega),
    readLE_writeLE hle]
  refine computeIpChecksum_congr fun x hx _ => ?_
  rw [writeLE_frame (by omega), writeLE_frame (by omega), writeLE_frame (by omega)]

end Frame

end ApuBios.CorebootTable
