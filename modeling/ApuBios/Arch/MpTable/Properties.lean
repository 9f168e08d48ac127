import ApuBios.Arch.MpTable.Basic
import ApuBios.Library.Walk

/-!
# Reading the MP configuration table

Walks over a finished table visit the entries that were added, and the sums of the bytes that the
checksums belong to are zero.
-/

namespace ApuBios.MpTable

open Mem Walk Checksum

variable {m m' : Mem} {mc p q k a n : ℕ} {e : Entry} {es : List Entry} {fields : List Field}
  {calls : List BaseCall} {extendedCalls : List ExtendedCall}

/-! ### Checksums -/

/-- The checksum makes the sum of the bytes zero. -/
lemma smpComputeChecksum_add :
    ((smpComputeChecksum m p n).toNat + total (fun _ => 1) m p n) % 256 = 0 := by
  induction n with
  | zero => rfl
  | succ n ih =>
    have hbyte := (m (p + n)).toNat_lt
    have hsum := (smpComputeChecksum m p n).toNat_lt
    have hstep : smpComputeChecksum m p (n + 1) = smpComputeChecksum m p n - m (p + n) := by
      rw [smpComputeChecksum, List.range_succ, List.foldl_append]
      rfl
    rw [hstep, total_succ, UInt8.toNat_sub]
    omega

/-! ### Entries -/

lemma writeFields_frame (h : ∀ f ∈ fields, a < p + f.offset ∨ p + f.offset + f.width ≤ a) :
    writeFields m p fields a = m a := by
  induction fields generalizing m with
  | nil => rfl
  | cons f fields ih =>
    rw [List.forall_mem_cons] at h
    exact (ih h.2).trans (writeLE_frame h.1)

/-- What is stored does not depend on where the entry lies. -/
lemma writeFields_shift (h : m (p + k) = m' (q + k)) :
    writeFields m p fields (p + k) = writeFields m' q fields (q + k) := by
  induction fields generalizing m m' with
  | nil => exact h
  | cons f fields ih => exact ih (writeLE_shift h)

lemma writeEntry_frame (h : a < p ∨ p + e.size ≤ a) : writeEntry m p e a = m a := by
  rw [writeEntry, writeFields_frame, memset_frame h]
  intro f hf
  have := e.inside f hf
  omega

/-- The bytes of an entry. -/
def Entry.image (e : Entry) (k : ℕ) : UInt8 := writeEntry (fun _ => 0) 0 e (0 + k)

lemma writeEntry_read (hk : k < e.size) : writeEntry m p e (p + k) = e.image k := by
  refine writeFields_shift ?_
  rw [memset, memset, if_pos (by omega), if_pos (by omega)]

/-- The entries lie one after the other. -/
def Laid (m : Mem) : ℕ → List Entry → Prop
  | _, [] => True
  | p, e :: es => (∀ k < e.size, m (p + k) = e.image k) ∧ Laid m (p + e.size) es

def sizes (es : List Entry) : ℕ := (es.map Entry.size).sum

@[simp] lemma sizes_nil : sizes [] = 0 := rfl

@[simp] lemma sizes_cons : sizes (e :: es) = e.size + sizes es := List.sum_cons

lemma sizes_concat : sizes (es ++ [e]) = sizes es + e.size := by
  rw [sizes, List.map_append, List.sum_append, List.map_singleton, List.sum_singleton]
  rfl

lemma laid_concat : Laid m p (es ++ [e]) ↔
    Laid m p es ∧ ∀ k < e.size, m (p + sizes es + k) = e.image k := by
  induction es generalizing p with
  | nil => simp [Laid]
  | cons e' es ih =>
    rw [List.cons_append, Laid, Laid, ih, sizes_cons, and_assoc, Nat.add_assoc p]

lemma Laid.congr (h : Laid m p es) (heq : ∀ a, p ≤ a → a < p + sizes es → m' a = m a) :
    Laid m' p es := by
  induction es generalizing p with
  | nil => trivial
  | cons e es ih =>
    rw [sizes_cons] at heq
    refine ⟨fun k hk => ?_, ih h.2 fun a ha ha' => heq a (by omega) (by omega)⟩
    rw [heq _ (by omega) (by omega), h.1 k hk]

/-- A reader that finds the size of each entry from its bytes walks over them. -/
lemma Laid.segmented {len : ℕ → ℕ} (h : Laid m p es)
    (hlen : ∀ e ∈ es, ∀ q, (∀ k < e.size, m (q + k) = e.image k) → len q = e.size) :
    Segmented len p (es.map Entry.size) := by
  induction es generalizing p with
  | nil => trivial
  | cons e es ih =>
    rw [List.forall_mem_cons] at hlen
    exact ⟨e.size_pos, hlen.1 p h.1, ih h.2 hlen.2⟩

/-! ### Types and lengths -/

def BaseCall.type : BaseCall → ℕ
  | .processor .. => MP_PROCESSOR
  | .bus .. => MP_BUS
  | .ioapic .. => MP_IOAPIC
  | .intsrc .. => MP_INTSRC
  | .lintsrc .. => MP_LINTSRC

lemma BaseCall.image_type (c : BaseCall) : (c.entry.image 0).toNat = c.type := by
  cases c <;>
    simp [Entry.image, writeEntry, writeFields, BaseCall.entry, BaseCall.fields, BaseCall.type,
      writeLE, List.range_succ, MP_PROCESSOR, MP_BUS, MP_IOAPIC, MP_INTSRC, MP_LINTSRC]

lemma ExtendedCall.image_length (c : ExtendedCall) : (c.entry.image 1).toNat = c.size := by
  cases c <;>
    simp [Entry.image, writeEntry, writeFields, ExtendedCall.entry, ExtendedCall.fields,
      ExtendedCall.size, writeLE]

lemma mpcEntryLength_eq (c : BaseCall) (h : ∀ k < c.entry.size, m (q + k) = c.entry.image k) :
    mpcEntryLength m q = c.entry.size := by
  rw [mpcEntryLength, ← Nat.add_zero q, h 0 c.entry.size_pos, c.image_type]
  cases c <;> rfl

lemma mpeEntryLength_eq (c : ExtendedCall)
    (h : ∀ k < c.entry.size, m (q + k) = c.entry.image k) : mpeEntryLength m q = c.entry.size := by
  have hsize : 1 < c.entry.size := by
    cases c <;> exact Nat.succ_lt_succ (Nat.succ_pos _)
  rw [mpeEntryLength, h 1 hsize, c.image_length]
  rfl

/-! ### The table while it is built -/

/-- A table with entries of both kinds and no checksum. -/
structure Built (m : Mem) (mc : ℕ) (es extended : List Entry) : Prop where
  length : mpcLength m mc = sizeOfTable + sizes es
  count : mpcEntryCount m mc = es.length
  extendedLength : mpeLength m mc = sizes extended
  checksum : mpcChecksum m mc = 0
  entries : Laid m (mc + sizeOfTable) es
  extendedEntries : Laid m (mc + sizeOfTable + sizes es) extended

lemma length_padded (s : List UInt8) (n : ℕ) : (padded s n).length = n := by
  rw [padded, List.length_append, List.length_take, List.length_replicate]
  omega

lemma built_init (m : Mem) (mc lapicAddr : ℕ) (vendor partNumber : List UInt8) :
    Built (mptableInit m mc lapicAddr vendor partNumber) mc [] [] := by
  have hvendor := length_padded vendor 8
  have hpart := length_padded partNumber 12
  refine ⟨?_, ?_, ?_, ?_, trivial, trivial⟩
  · rw [mpcLength, mptableInit]
    rw [readLE_writeBytes_disjoint (by omega), readLE_writeBytes_disjoint (by omega)]
    iterate 9 rw [readLE_writeLE_disjoint (by omega)]
    exact readLE_writeLE (by decide)
  · rw [mpcEntryCount, mptableInit]
    rw [readLE_writeBytes_disjoint (by omega), readLE_writeBytes_disjoint (by omega)]
    iterate 4 rw [readLE_writeLE_disjoint (by omega)]
    exact readLE_writeLE (by decide)
  · rw [mpeLength, mptableInit]
    rw [readLE_writeBytes_disjoint (by omega), readLE_writeBytes_disjoint (by omega)]
    iterate 2 rw [readLE_writeLE_disjoint (by omega)]
    exact readLE_writeLE (by decide)
  · rw [mpcChecksum, mptableInit]
    rw [writeBytes_frame (by omega), writeBytes_frame (by omega)]
    iterate 7 rw [writeLE_frame (by omega)]
    rw [writeLE, if_pos (by omega), Nat.zero_div]
    rfl

/-- An entry is appended to the base table. -/
lemma Built.base (h : Built m mc es []) (c : BaseCall)
    (hfits : sizeOfTable + sizes es + c.size < 2 ^ 16) (hcount : es.length + 1 < 2 ^ 16) :
    Built (c.exec m mc) mc (es ++ [c.entry]) [] := by
  have htable : sizeOfTable = 44 := rfl
  have hnext : smpNextMpcEntry m mc = mc + 44 + sizes es := by
    rw [smpNextMpcEntry, h.length]
    omega
  have hframe : ∀ a, a < mc + 44 + sizes es →
      writeEntry m (mc + 44 + sizes es) c.entry a = m a := fun a ha => writeEntry_frame (Or.inl ha)
  have hlength : mpcLength (writeEntry m (mc + 44 + sizes es) c.entry) mc = 44 + sizes es := by
    rw [← htable, ← h.length]
    exact readLE_congr fun a _ ha => hframe a (by omega)
  obtain ⟨m₁, hm₁⟩ : ∃ m₁, m₁ = writeLE (writeEntry m (mc + 44 + sizes es) c.entry) (mc + 4) 2
    (44 + sizes es + c.size) := ⟨_, rfl⟩
  have hcount₁ : mpcEntryCount m₁ mc = es.length := by
    rw [← h.count, mpcEntryCount, hm₁, readLE_writeLE_disjoint (by omega)]
    exact readLE_congr fun a _ ha => hframe a (by omega)
  have hexec : c.exec m mc = writeLE m₁ (mc + 34) 2 (es.length + 1) := by
    rw [BaseCall.exec, smpAddMpcEntry, hnext, hlength, Word.add_eq (by omega), ← hm₁, hcount₁,
      Word.add_eq hcount]
  -- what is stored in the header is the two counters
  have hheader : ∀ a, a < mc + 44 + sizes es → a < mc + 4 ∨ mc + 6 ≤ a →
      a < mc + 34 ∨ mc + 36 ≤ a → c.exec m mc a = m a := fun a ha h₁ h₂ => by
    rw [hexec, writeLE_frame h₂, hm₁, writeLE_frame h₁, hframe a ha]
  have hnew : ∀ a, mc + 44 ≤ a →
      c.exec m mc a = writeEntry m (mc + 44 + sizes es) c.entry a := fun a ha => by
    rw [hexec, writeLE_frame (by omega), hm₁, writeLE_frame (by omega)]
  refine ⟨?_, ?_, ?_, ?_, laid_concat.mpr ⟨?_, fun k hk => ?_⟩, trivial⟩
  · rw [sizes_concat, mpcLength, hexec, readLE_writeLE_disjoint (by omega), hm₁,
      readLE_writeLE (by omega)]
    exact Nat.add_assoc ..
  · rw [mpcEntryCount, hexec, readLE_writeLE (by omega), List.length_append]
    rfl
  · rw [← h.extendedLength]
    exact readLE_congr fun a _ _ => hheader a (by omega) (by omega) (by omega)
  · rw [← h.checksum]
    exact hheader _ (by omega) (by omega) (by omega)
  · exact h.entries.congr fun a ha ha' => hheader a (by omega) (by omega) (by omega)
  · rw [hnew _ (by omega)]
    exact writeEntry_read hk

/-- An entry is appended to the extended entries. -/
lemma Built.extended {extended : List Entry} (h : Built m mc es extended) (c : ExtendedCall)
    (hfits : sizes extended + c.size < 2 ^ 16) :
    Built (c.exec m mc) mc es (extended ++ [c.entry]) := by
  have htable : sizeOfTable = 44 := rfl
  obtain ⟨mpe, hmpe⟩ : ∃ mpe, mpe = mc + 44 + sizes es + sizes extended := ⟨_, rfl⟩
  have hnext : smpNextMpeEntry m mc = mpe := by
    rw [smpNextMpeEntry, h.length, h.extendedLength]
    omega
  have hframe : ∀ a, a < mpe → writeEntry m mpe c.entry a = m a := fun a ha =>
    writeEntry_frame (Or.inl ha)
  have hlength : mpeLength (writeEntry m mpe c.entry) mc = sizes extended := by
    rw [← h.extendedLength]
    exact readLE_congr fun a _ ha => hframe a (by omega)
  have hentry : (writeEntry m mpe c.entry (mpe + 1)).toNat = c.size :=
    mpeEntryLength_eq c fun k hk => writeEntry_read hk
  have hexec : c.exec m mc =
      writeLE (writeEntry m mpe c.entry) (mc + 40) 2 (sizes extended + c.size) := by
    rw [ExtendedCall.exec, hnext, smpAddMpeEntry, hlength, hentry, Word.add_eq (by omega)]
  have hkept : ∀ a, a < mpe → a < mc + 40 ∨ mc + 42 ≤ a → c.exec m mc a = m a := fun a ha h' => by
    rw [hexec, writeLE_frame h', hframe a ha]
  refine ⟨?_, ?_, ?_, ?_, ?_, laid_concat.mpr ⟨?_, fun k hk => ?_⟩⟩
  · rw [← h.length]
    exact readLE_congr fun a _ _ => hkept a (by omega) (by omega)
  · rw [← h.count]
    exact readLE_congr fun a _ _ => hkept a (by omega) (by omega)
  · rw [mpeLength, hexec, readLE_writeLE hfits, sizes_concat]
    rfl
  · rw [← h.checksum]
    exact hkept _ (by omega) (by omega)
  · exact h.entries.congr fun a ha ha' => hkept a (by omega) (by omega)
  · exact h.extendedEntries.congr fun a ha ha' => hkept a (by omega) (by omega)
  · rw [hexec, writeLE_frame (by omega), htable, ← hmpe]
    exact writeEntry_read hk

lemma length_le_sizes (es : List Entry) : es.length ≤ sizes es := by
  induction es with
  | nil => rfl
  | cons e es ih =>
    have := e.size_pos
    rw [List.length_cons, sizes_cons]
    omega

lemma runBase_built (calls : List BaseCall) (h : Built m mc [] [])
    (hfits : sizeOfTable + sizes (calls.map BaseCall.entry) < 2 ^ 16) :
    Built (runBase m mc calls) mc (calls.map BaseCall.entry) [] := by
  induction calls using List.reverseRecOn with
  | nil => exact h
  | append_singleton calls c ih =>
    have hlen := length_le_sizes (calls.map BaseCall.entry)
    rw [List.map_append, List.map_singleton, sizes_concat] at hfits
    have htable : sizeOfTable = 44 := rfl
    have hsize : c.entry.size = c.size := rfl
    rw [runBase, List.foldl_append, List.map_append]
    exact (ih (by omega)).base c (by omega) (by omega)

lemma runExtended_built (extendedCalls : List ExtendedCall) (h : Built m mc es [])
    (hfits : sizes (extendedCalls.map ExtendedCall.entry) < 2 ^ 16) :
    Built (runExtended m mc extendedCalls) mc es (extendedCalls.map ExtendedCall.entry) := by
  induction extendedCalls using List.reverseRecOn with
  | nil => exact h
  | append_singleton calls c ih =>
    rw [List.map_append, List.map_singleton, sizes_concat] at hfits
    rw [runExtended, List.foldl_append, List.map_append]
    exact (ih (by omega)).extended c hfits

/-! ### The finished table -/

/-- What a reader relies on: both walks visit the entries that were added, in their order, and both
sums of bytes are zero. -/
structure Readable (m : Mem) (mc : ℕ) (calls : List BaseCall) (extendedCalls : List ExtendedCall) :
    Prop where
  visits : walk (mpcEntryLength m) (mc + mpcLength m mc) (mpcLength m mc) (mc + sizeOfTable) =
    (starts (mc + sizeOfTable) (calls.map BaseCall.size), mc + mpcLength m mc)
  count : mpcEntryCount m mc = calls.length
  entries : Laid m (mc + sizeOfTable) (calls.map BaseCall.entry)
  extendedVisits : walk (mpeEntryLength m) (mc + mpcLength m mc + mpeLength m mc)
      (mpeLength m mc) (mc + mpcLength m mc) =
    (starts (mc + mpcLength m mc) (extendedCalls.map ExtendedCall.size),
      mc + mpcLength m mc + mpeLength m mc)
  extendedEntries : Laid m (mc + mpcLength m mc) (extendedCalls.map ExtendedCall.entry)
  sum : total (fun _ => 1) m mc (mpcLength m mc) % 256 = 0
  extendedSum : ((mpeChecksum m mc).toNat +
    total (fun _ => 1) m (mc + mpcLength m mc) (mpeLength m mc)) % 256 = 0

/-- Both checksums, once they are stored. -/
private lemma finalize_sums {f t : Mem} {len extendedLen : ℕ} (hlen : sizeOfTable ≤ len)
    (hclear : mpcChecksum t mc = 0)
    (hf : f = Function.update (Function.update t (mc + 42)
      (smpComputeChecksum t (mc + len) extendedLen)) (mc + 7) (smpComputeChecksum (Function.update t
        (mc + 42) (smpComputeChecksum t (mc + len) extendedLen)) mc len)) :
    total (fun _ => 1) f mc len % 256 = 0 ∧
      ((mpeChecksum f mc).toNat + total (fun _ => 1) f (mc + len) extendedLen) % 256 = 0 := by
  have htable : sizeOfTable = 44 := rfl
  constructor
  · obtain ⟨m₁, hm₁⟩ : ∃ m₁, m₁ = Function.update t (mc + 42)
      (smpComputeChecksum t (mc + len) extendedLen) := ⟨_, rfl⟩
    rw [← hm₁] at hf
    have hzero : m₁ (mc + 7) = 0 := by
      rw [hm₁, Function.update_of_ne (by omega)]
      exact hclear
    have hstored : f (mc + 7) = smpComputeChecksum m₁ mc len := by rw [hf, Function.update_self]
    have hframe : ∀ a, a ≠ mc + 7 → f a = m₁ a := fun a ha => by
      rw [hf, Function.update_of_ne ha]
    have hsum := total_update (w := fun _ => 1) (m := m₁) (p := mc) 7 1
      (by omega : 7 + 1 ≤ len) (fun a _ ha => hframe a (by omega)) fun a ha _ => hframe a (by omega)
    simp only [total_succ, total_zero, hzero, hstored, Nat.add_zero] at hsum
    have hcheck := smpComputeChecksum_add (m := m₁) (p := mc) (n := len)
    simp only [UInt8.toNat_zero] at hsum
    omega
  · have hframe : ∀ a, mc + len ≤ a → f a = t a := fun a ha => by
      rw [hf, Function.update_of_ne (by omega), Function.update_of_ne (by omega)]
    have hstored : mpeChecksum f mc = smpComputeChecksum t (mc + len) extendedLen := by
      rw [mpeChecksum, hf, Function.update_of_ne (by omega), Function.update_self]
    rw [hstored, total_congr fun a ha _ => hframe a ha]
    exact smpComputeChecksum_add

/-- A table of less than 64 KiB is readable once it is finished. -/
theorem mptableFinalize_readable (m : Mem) (mc lapicAddr : ℕ) (vendor partNumber : List UInt8)
    (hfits : sizeOfTable + sizes (calls.map BaseCall.entry) +
      sizes (extendedCalls.map ExtendedCall.entry) < 2 ^ 16) :
    Readable (mptableFinalize (runExtended (runBase (mptableInit m mc lapicAddr vendor partNumber) mc
      calls) mc extendedCalls) mc) mc calls extendedCalls := by
  have htable : sizeOfTable = 44 := rfl
  have h := runExtended_built extendedCalls
    (runBase_built calls (built_init m mc lapicAddr vendor partNumber) (by omega)) (by omega)
  generalize runExtended (runBase (mptableInit m mc lapicAddr vendor partNumber) mc calls) mc
    extendedCalls = t at h ⊢
  obtain ⟨f, hf⟩ : ∃ f, f = mptableFinalize t mc := ⟨_, rfl⟩
  rw [← hf]
  have hsame : ∀ a, a ≠ mc + 7 → a ≠ mc + 42 → f a = t a := fun a h₁ h₂ => by
    rw [hf, mptableFinalize, Function.update_of_ne h₁, Function.update_of_ne h₂]
  have hkept : ∀ p n, (p + n ≤ mc + 7 ∨ mc + 8 ≤ p) → (p + n ≤ mc + 42 ∨ mc + 43 ≤ p) →
      readLE f p n = readLE t p n := fun p n h₁ h₂ =>
    readLE_congr fun a ha ha' => hsame a (by omega) (by omega)
  have hlength : mpcLength f mc = sizeOfTable + sizes (calls.map BaseCall.entry) := by
    rw [← h.length]
    exact hkept _ _ (by omega) (by omega)
  have hextended : mpeLength f mc = sizes (extendedCalls.map ExtendedCall.entry) := by
    rw [← h.extendedLength]
    exact hkept _ _ (by omega) (by omega)
  have hcount : mpcEntryCount f mc = calls.length := by
    rw [← List.length_map (f := BaseCall.entry), ← h.count]
    exact hkept _ _ (by omega) (by omega)
  have hentries : Laid f (mc + sizeOfTable) (calls.map BaseCall.entry) :=
    h.entries.congr fun a ha ha' => hsame a (by omega) (by omega)
  have hextendedEntries : Laid f (mc + sizeOfTable + sizes (calls.map BaseCall.entry))
      (extendedCalls.map ExtendedCall.entry) :=
    h.extendedEntries.congr fun a ha ha' => hsame a (by omega) (by omega)
  have hsegmented := hentries.segmented fun e he q hq => by
    obtain ⟨c, -, rfl⟩ := List.mem_map.mp he
    exact mpcEntryLength_eq c hq
  have hsegmented' := hextendedEntries.segmented fun e he q hq => by
    obtain ⟨c, -, rfl⟩ := List.mem_map.mp he
    exact mpeEntryLength_eq c hq
  have hstored : ∀ v, mpcLength (Function.update t (mc + 42) v) mc = mpcLength t mc := fun v =>
    readLE_congr fun a _ ha => Function.update_of_ne (show a ≠ mc + 42 by omega) _ _
  have hsums := finalize_sums (f := f) (t := t) (Nat.le_add_right _ _) h.checksum (by
    rw [hf, mptableFinalize, hstored, smpNextMpcEntry, h.length, h.extendedLength])
  rw [List.map_map] at hsegmented hsegmented'
  have hsum : sizes (calls.map BaseCall.entry) = (calls.map BaseCall.size).sum := by
    rw [sizes, List.map_map]
    rfl
  have hsum' : sizes (extendedCalls.map ExtendedCall.entry) =
      (extendedCalls.map ExtendedCall.size).sum := by
    rw [sizes, List.map_map]
    rfl
  have hle := hsegmented.length_le
  refine ⟨?_, hcount, hentries, ?_, ?_, ?_, ?_⟩
  · rw [hlength, hsum, ← Nat.add_assoc]
    exact hsegmented.walk_eq (hle.trans (Nat.le_add_left _ _))
  · rw [hlength, hextended, hsum', ← Nat.add_assoc]
    exact hsegmented'.walk_eq hsegmented'.length_le
  · rw [hlength, ← Nat.add_assoc]
    exact hextendedEntries
  · rw [hlength]
    exact hsums.1
  · rw [hlength, hextended]
    exact hsums.2

/-- A processor, the PCI bus and its address space. -/
theorem mptableFinalize_readable_processor :
    Readable (mptableFinalize (runExtended (runBase (mptableInit (fun _ => 0) 0x1000 0xfee00000 [] [])
      0x1000 [.processor 0 0x10 3 0 0, .bus 0 fun _ => 0x20]) 0x1000
        [.addressSpace 0 0 0 0 0 0]) 0x1000) 0x1000
      [.processor 0 0x10 3 0 0, .bus 0 fun _ => 0x20] [.addressSpace 0 0 0 0 0 0] :=
  mptableFinalize_readable _ _ _ _ _ (by decide)

end ApuBios.MpTable
