import ApuBios.Lib.Memrange.Properties

/-!
# The memory map for the payload

Model of `src/lib/bootmem.c`: the ranges of the memory, from which buffers are taken.
-/

namespace ApuBios.Bootmem

open Memrange IntervalMap

def LB_MEM_RAM : ℕ := 1
def LB_MEM_UNUSABLE : ℕ := 5

def rangeEntryEnd (r : RangeEntry) : ℕ := Word.add 64 r.end_ 1

def rangeEntrySize (r : RangeEntry) : ℕ := Word.add 64 (Word.sub 64 r.end_ r.begin) 1

def bootmemAddRange (bootmem : Memranges) (start size type : ℕ) : Memranges :=
  memrangesInsert bootmem start size type

/-- The loop of `bootmem_region_targets_usable_ram` -/
def targetsLoop (start end_ : ℕ) : List RangeEntry → Bool
  | [] => false
  | r :: rest =>
    if end_ ≤ r.begin then false
    else if (r.begin ≤ start ∧ end_ ≤ rangeEntryEnd r) ∧ r.tag = LB_MEM_RAM then true
    else targetsLoop start end_ rest

def bootmemRegionTargetsUsableRam (bootmem : Memranges) (start size : ℕ) : Bool :=
  targetsLoop start (Word.add 64 start size) bootmem.entries

/-- `max_addr` -/
def maxAddr : ℕ := 2 ^ 32

/-- The end of the part below 4 GiB. -/
def clippedEnd (r : RangeEntry) : ℕ := min (rangeEntryEnd r) maxAddr

/-- The loop of `bootmem_allocate_buffer`; the last range that fits is taken. -/
def allocateLoop (size : ℕ) (region : Option RangeEntry) : List RangeEntry → Option RangeEntry
  | [] => region
  | r :: rest =>
    if rangeEntrySize r < size then allocateLoop size region rest
    else if r.tag ≠ LB_MEM_RAM then allocateLoop size region rest
    else if maxAddr ≤ r.begin then allocateLoop size region rest
    else if Word.sub 64 (clippedEnd r) r.begin < size then allocateLoop size region rest
    else allocateLoop size (some r) rest

/-- The map afterwards and the pointer; 0 is `NULL`. -/
def bootmemAllocateBuffer (bootmem : Memranges) (size : ℕ) : Memranges × ℕ :=
  let size := Word.alignUp 32 size 4096
  match allocateLoop size none bootmem.entries with
  | none => (bootmem, 0)
  | some region =>
    let begin := Word.sub 64 (clippedEnd region) size
    (bootmemAddRange bootmem begin size LB_MEM_UNUSABLE, begin % 2 ^ 32)

/-! ### The map that the ranges stand for -/

/-- All of the region is memory that can be used. -/
def InUsableRam (bootmem : Memranges) (start size : ℕ) : Prop :=
  ∀ a, start ≤ a → a < start + size → bootmem.denote a = some LB_MEM_RAM

/-- The region lies in one range of RAM. -/
lemma exists_of_targetsLoop {start end_ : ℕ} {l : List RangeEntry}
    (h : targetsLoop start end_ l = true) :
    ∃ r ∈ l, r.begin ≤ start ∧ end_ ≤ rangeEntryEnd r ∧ r.tag = LB_MEM_RAM := by
  induction l with
  | nil => cases h
  | cons r rest ih =>
    rw [targetsLoop] at h
    split_ifs at h with hend hr
    · exact ⟨r, by simp, hr.1.1, hr.1.2, hr.2⟩
    · obtain ⟨r', hr', hprop⟩ := ih h
      exact ⟨r', List.mem_cons_of_mem _ hr', hprop⟩

/-- What the check accepts is usable. -/
lemma inUsableRam_of_targets {bootmem : Memranges} (hcan : bootmem.IsCanonical) {start size : ℕ}
    (hfit : start + size < 2 ^ 64) (h : bootmemRegionTargetsUsableRam bootmem start size = true) :
    InUsableRam bootmem start size := by
  obtain ⟨hcanonical, hpaged⟩ := (Memranges.isCanonical_iff _).mp hcan
  rw [bootmemRegionTargetsUsableRam, Word.add_eq hfit] at h
  obtain ⟨r, hr, hbegin, hend, htag⟩ := exists_of_targetsLoop h
  intro a hlo hhi
  have hle : a ≤ r.end_ := by
    have hlt := (hpaged r hr).fits
    rw [rangeEntryEnd, Word.add] at hend
    omega
  rw [← htag]
  exact hcanonical.separated.lookup_mem hr (hbegin.trans hlo) hle

end ApuBios.Bootmem
