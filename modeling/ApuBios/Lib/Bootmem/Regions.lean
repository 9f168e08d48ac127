import ApuBios.Lib.Bootmem
import ApuBios.Lib.Memrange.Inverted

/-!
# What the memory map says about a region

A map that was built by `bootmem_add_range` is canonical as long as no request covered an
interval that ends in front of its beginning. On such a map the search for one entry that holds
a whole region finds every region of RAM, but for those next to the end of the address space.
-/

namespace ApuBios.Bootmem

open Memrange IntervalMap

/-! ### Requests for no bytes -/

/-- A request for no bytes leaves the map alone only where it is already as the request would
have it. -/
theorem unchanged_zero_iff {bootmem : Memranges} (h : bootmem.IsCanonical) {base : ℕ}
    (hbase : base < 2 ^ 64) (tag : ℕ) :
    (Unchanged bootmem (bootmemAddRange bootmem base 0 tag) ↔ InsertKeeps bootmem base tag) ∧
      (Unchanged bootmem (memrangesInsert bootmem base 0 tag) ↔ InsertKeeps bootmem base tag) ∧
      (Unchanged bootmem (memrangesCreateHole bootmem base 0) ↔ HoleKeeps bootmem base) :=
  ⟨insert_zero_iff h hbase tag, insert_zero_iff h hbase tag, createHole_zero_iff h hbase⟩

theorem unchanged_zero_iff_page :
    Unchanged ⟨[⟨0x0, 0xffff, 1⟩]⟩ (bootmemAddRange ⟨[⟨0x0, 0xffff, 1⟩]⟩ 0x2000 0 1) ∧
      ¬Unchanged ⟨[⟨0x0, 0xffff, 1⟩]⟩ (memrangesCreateHole ⟨[⟨0x0, 0xffff, 1⟩]⟩ 0x2000 0) := by
  have hcan : Memranges.IsCanonical ⟨[⟨0x0, 0xffff, 1⟩]⟩ :=
    @run_isCanonical [.insert 0 0x10000 1] (by decide)
  have hiff := @unchanged_zero_iff _ hcan 0x2000 (by norm_num) 1
  constructor
  · exact hiff.1.mpr (Or.inl rfl)
  · rw [hiff.2.2]
    exact fun hno => hno ⟨1, rfl, rfl⟩

/-- At the start of a page an empty entry stays in the list, within a page the page changes its
tag, and at 0 all addresses do. -/
theorem not_unchanged_zero :
    Memranges.IsCanonical ⟨[⟨0x0, 0xffff, 1⟩]⟩ ∧
      ¬Unchanged ⟨[⟨0x0, 0xffff, 1⟩]⟩ (bootmemAddRange ⟨[⟨0x0, 0xffff, 1⟩]⟩ 0x2000 0 5) ∧
      ¬Unchanged ⟨[⟨0x0, 0xffff, 1⟩]⟩ (bootmemAddRange ⟨[⟨0x0, 0xffff, 1⟩]⟩ 0x2800 0 5) ∧
      ¬Unchanged ⟨[⟨0x0, 0xffff, 1⟩]⟩ (bootmemAddRange ⟨[⟨0x0, 0xffff, 1⟩]⟩ 0 0 16) := by
  refine ⟨@run_isCanonical [.insert 0 0x10000 1] (by decide), fun h => ?_, fun h => ?_,
    fun h => ?_⟩
  · have := h.canonical.begin_le ⟨0x2000, 0x1fff, 5⟩ (by decide)
    norm_num at this
  · have := h.denote_eq 0x2800
    revert this
    decide
  · have := h.denote_eq 0
    revert this
    decide

/-! ### Maps built by `bootmem_add_range` -/

/-- A call of `bootmem_add_range`. -/
structure AddRange where
  start : ℕ
  size : ℕ
  type : ℕ
  deriving DecidableEq, Repr

def AddRange.exec (bootmem : Memranges) (c : AddRange) : Memranges :=
  bootmemAddRange bootmem c.start c.size c.type

/-- The map after a sequence of calls. -/
def runAdd (calls : List AddRange) : Memranges := calls.foldl AddRange.exec ⟨[]⟩

/-- The call covers an interval whose end is not in front of its beginning, or it does no
harm in spite of that. -/
def AddRange.Proper (bootmem : Memranges) (c : AddRange) : Prop :=
  c.start < 2 ^ 64 ∧
    (pageBegin c.start ≤ lastOf c.start c.size ∨
      c.size = 0 ∧ InsertKeeps bootmem c.start c.type)

/-- Every call of the run is proper in the map that it finds. -/
def ProperRun (calls : List AddRange) : Prop :=
  ∀ before c after, calls = before ++ c :: after → c.Proper (runAdd before)

lemma AddRange.exec_isCanonical {bootmem : Memranges} (h : bootmem.IsCanonical) {c : AddRange}
    (hc : c.Proper bootmem) : (AddRange.exec bootmem c).IsCanonical := by
  obtain ⟨hstart, horder | ⟨hsize, hkeeps⟩⟩ := hc
  · rw [AddRange.exec, bootmemAddRange, memrangesInsert, doAction_eq_lastOf hstart]
    exact (mergeAddMemranges_spec _ horder (lastOf_lt _ _) (dvd_pageBegin _)
      (dvd_lastOf_add_one _ _) h).1
  · rw [AddRange.exec, hsize]
    exact ((insert_zero_iff h hstart c.type).mpr hkeeps).canonical

/-- The induction is on the calls, from the last one. -/
lemma runAdd_isCanonical {calls : List AddRange} (h : ProperRun calls) :
    (runAdd calls).IsCanonical := by
  induction calls using List.reverseRecOn with
  | nil => exact run_isCanonical (by simp : ∀ c ∈ ([] : List Call), c.InBounds)
  | append_singleton calls c ih =>
    rw [runAdd, List.foldl_append]
    refine AddRange.exec_isCanonical (ih fun before d after heq => ?_) (h calls c [] rfl)
    exact h before d (after ++ [c]) (by rw [heq]; simp)

/-- Nonempty ranges within the address space make a proper run. -/
lemma properRun_of_inBounds {calls : List AddRange}
    (h : ∀ c ∈ calls, 0 < c.size ∧ c.start + c.size ≤ 2 ^ 64) : ProperRun calls := by
  rintro before c after rfl
  obtain ⟨hsize, hfit⟩ := h c (by simp)
  have hlt := pageBegin_lt_pageEnd c.start hsize
  refine ⟨by omega, Or.inl ?_⟩
  rw [lastOf_eq hsize hfit]
  omega

/-! ### Regions of RAM -/

/-- RAM from the address to the end of the address space. -/
def RamToTheTop (bootmem : Memranges) (start : ℕ) : Prop :=
  ∀ a, start ≤ a → a < 2 ^ 64 → bootmem.denote a = some LB_MEM_RAM

/-- The loop finds the entry that holds the region: those in front of it do not lie behind the
region. -/
private lemma targetsLoop_of_mem {start end_ : ℕ} {l : List RangeEntry} {r : RangeEntry}
    (hs : Separated l) (hr : r ∈ l) (hbegin : r.begin ≤ start) (hlt : start < end_)
    (hend : end_ ≤ rangeEntryEnd r) (htag : r.tag = LB_MEM_RAM) :
    targetsLoop start end_ l = true := by
  induction l with
  | nil => cases hr
  | cons e rest ih =>
    obtain ⟨hle, hlater, hs'⟩ := Separated.cons_iff.mp hs
    rw [targetsLoop]
    rcases List.mem_cons.mp hr with rfl | hr
    · rw [if_neg (by omega), if_pos ⟨⟨hbegin, hend⟩, htag⟩]
    · have hbefore := hlater r hr
      simp only [lo_eq, hi_eq] at hle hbefore
      rw [if_neg (by omega), ih hs' hr]
      split_ifs <;> rfl

/-- On a canonical map the answer is right unless the region lies in RAM that goes on to the end
of the address space: the end of that entry wraps around to 0. -/
lemma targets_iff {bootmem : Memranges} (hcan : bootmem.IsCanonical) {start size : ℕ}
    (hsize : 0 < size) (hfit : start + size < 2 ^ 64) :
    (bootmemRegionTargetsUsableRam bootmem start size = true ↔ InUsableRam bootmem start size) ↔
      ¬RamToTheTop bootmem start := by
  obtain ⟨hcanonical, hpaged⟩ := (Memranges.isCanonical_iff _).mp hcan
  constructor
  · intro hiff htop
    have hin : InUsableRam bootmem start size := fun a hlo hhi => htop a hlo (by omega)
    have htargets := hiff.mpr hin
    rw [bootmemRegionTargetsUsableRam, Word.add_eq hfit] at htargets
    obtain ⟨r, hr, hbegin, hend, htag⟩ := exists_of_targetsLoop htargets
    have hrfit := (hpaged r hr).fits
    rw [rangeEntryEnd, Word.add] at hend
    refine hcanonical.lookup_succ_ne hr ?_
    rw [val_eq, htag]
    exact htop (r.end_ + 1) (by omega) (by omega)
  · intro hnot
    refine ⟨inUsableRam_of_targets hcan hfit, fun hin => ?_⟩
    obtain ⟨r, hr, hlo, hhi, htag⟩ :=
      hcanonical.exists_mem_of_const (show start ≤ start + size - 1 by omega) fun a hlo hhi =>
        hin a hlo (by omega)
    simp only [lo_eq, hi_eq, val_eq] at hlo hhi htag
    have hrfit := (hpaged r hr).fits
    have hend : r.end_ + 1 < 2 ^ 64 := by
      by_contra hge
      refine hnot fun a ha hlt => ?_
      rw [← htag]
      exact hcanonical.separated.lookup_mem hr (hlo.trans ha) (by simp only [hi_eq]; omega)
    rw [bootmemRegionTargetsUsableRam, Word.add_eq hfit]
    exact targetsLoop_of_mem hcanonical.separated hr hlo (by omega)
      (by rw [rangeEntryEnd, Word.add_eq hend]; omega) htag

/-- On every map that proper calls build, the answer for a region is right if and only if the
region does not lie in RAM that goes on to the end of the address space. -/
theorem runAdd_targets_iff (calls : List AddRange) (h : ProperRun calls) (start size : ℕ)
    (hsize : 0 < size) (hfit : start + size < 2 ^ 64) :
    (bootmemRegionTargetsUsableRam (runAdd calls) start size = true ↔
        InUsableRam (runAdd calls) start size) ↔
      ¬RamToTheTop (runAdd calls) start :=
  targets_iff (runAdd_isCanonical h) hsize hfit

theorem runAdd_targets_iff_pieces :
    bootmemRegionTargetsUsableRam
        (runAdd [⟨0x1000, 0x1000, 1⟩, ⟨0x0, 0x1000, 1⟩, ⟨0x1800, 0x3000, 1⟩]) 0x800 0x2000 = true ∧
      InUsableRam (runAdd [⟨0x1000, 0x1000, 1⟩, ⟨0x0, 0x1000, 1⟩, ⟨0x1800, 0x3000, 1⟩])
        0x800 0x2000 := by
  have hiff := (runAdd_targets_iff [⟨0x1000, 0x1000, 1⟩, ⟨0x0, 0x1000, 1⟩, ⟨0x1800, 0x3000, 1⟩]
    (properRun_of_inBounds (by simp)) 0x800 0x2000 (by norm_num) (by norm_num)).mpr fun htop => by
      have hnone := htop 0x5000 (by norm_num) (by norm_num)
      revert hnone
      decide
  have htargets : bootmemRegionTargetsUsableRam
      (runAdd [⟨0x1000, 0x1000, 1⟩, ⟨0x0, 0x1000, 1⟩, ⟨0x1800, 0x3000, 1⟩]) 0x800 0x2000 = true := by
    decide +kernel
  exact ⟨htargets, hiff.mp htargets⟩

/-- A request for no bytes leaves an empty entry in the middle of RAM, and a region across it is
refused; and RAM at the end of the address space is. -/
theorem not_runAdd_targets_iff :
    (bootmemRegionTargetsUsableRam (runAdd [⟨0x0, 0x10000, 1⟩, ⟨0x2000, 0, 5⟩]) 0x1000 0x2000 =
        false ∧
      InUsableRam (runAdd [⟨0x0, 0x10000, 1⟩, ⟨0x2000, 0, 5⟩]) 0x1000 0x2000) ∧
      bootmemRegionTargetsUsableRam (runAdd [⟨2 ^ 64 - 0x2000, 0x2000, 1⟩]) (2 ^ 64 - 0x2000)
        0x1000 = false ∧
      InUsableRam (runAdd [⟨2 ^ 64 - 0x2000, 0x2000, 1⟩]) (2 ^ 64 - 0x2000) 0x1000 := by
  have hsplit : runAdd [⟨0x0, 0x10000, 1⟩, ⟨0x2000, 0, 5⟩] =
      ⟨[⟨0x0, 0x1fff, 1⟩, ⟨0x2000, 0x1fff, 5⟩, ⟨0x2000, 0xffff, 1⟩]⟩ := by decide
  have htop : runAdd [⟨2 ^ 64 - 0x2000, 0x2000, 1⟩] =
      ⟨[⟨2 ^ 64 - 0x2000, 2 ^ 64 - 1, 1⟩]⟩ := by decide
  rw [hsplit, htop]
  refine ⟨⟨by decide, fun a hlo hhi => ?_⟩, by decide, fun a hlo hhi => ?_⟩
  · simp only [Memranges.denote, lookup_cons, lo_eq, hi_eq, val_eq]
    split_ifs <;> first | rfl | (exfalso; omega)
  · simp only [Memranges.denote, lookup_cons, lo_eq, hi_eq, val_eq]
    rw [if_pos (by omega)]
    rfl

end ApuBios.Bootmem
