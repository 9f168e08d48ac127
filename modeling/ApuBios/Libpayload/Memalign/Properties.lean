import ApuBios.Libpayload.Memalign.Regions

/-!
# Aligned blocks in order

What holds of the heap and of the regions between the calls of a program, and that every call keeps
it.
-/

namespace ApuBios.Memalign

open Word (ofInt toInt)

open Malloc (Region LiveBlock HDRSIZE InOrder)

variable {r : Region} {m m' : Mem} {reg reg' : AlignRegion} {regions pre post : List AlignRegion}
  {b c : AlignedBlock} {aligned : List AlignedBlock} {l : LiveBlock} {live : List LiveBlock}
  {s : State} {h' : Heap} {align size first n k nulls ptr : ℕ}

/-- The chain of the heap has the blocks of the program and those of the regions, and a block of
`memalign` is a run of elements of a region, apart from the others. -/
structure Ordered (r : Region) (s : State) : Prop where
  order : InOrder r ⟨s.heap.mem, s.live ++ internals s.heap.regions⟩
  region : ∀ reg ∈ s.heap.regions, reg.WellFormed s.heap.mem
  placed : ∀ b ∈ s.aligned, ∃ reg ∈ s.heap.regions, ∃ first, reg.Holds s.heap.mem b first
  apart : s.aligned.Pairwise fun b c => b.ptr + b.extent ≤ c.ptr ∨ c.ptr + c.extent ≤ b.ptr

/-! ### The blocks of regions -/

lemma start_mem_internals (hreg : reg ∈ regions) (hstart : reg.start ≠ 0) :
    (⟨reg.start, reg.extent⟩ : LiveBlock) ∈ internals regions :=
  List.mem_flatMap.mpr ⟨reg, hreg, by simp [AlignRegion.blocks, hstart]⟩

/-- The blocks of a region can be put first. -/
lemma blocks_perm (hstart : reg.start ≠ 0) :
    (live ++ internals (pre ++ reg :: post)).Perm
      (⟨reg.start, reg.extent⟩ :: ⟨reg.addr, REGION_SIZE⟩ :: (live ++ internals (pre ++ post))) := by
  have hblocks : reg.blocks = [⟨reg.addr, REGION_SIZE⟩, ⟨reg.start, reg.extent⟩] := by
    rw [AlignRegion.blocks, if_neg hstart]
  have heq : live ++ internals (pre ++ reg :: post) = (live ++ internals pre) ++
      ⟨reg.addr, REGION_SIZE⟩ :: ⟨reg.start, reg.extent⟩ :: internals post := by
    simp [internals, hblocks]
  have heq' : live ++ internals (pre ++ post) = (live ++ internals pre) ++ internals post := by
    simp [internals]
  rw [heq, heq']
  exact List.perm_middle.trans ((List.perm_middle.cons _).trans (List.Perm.swap _ _ _))

/-- A region is apart from every other block. -/
lemma start_apart (h : InOrder r ⟨m, live ++ internals (pre ++ reg :: post)⟩)
    (hstart : reg.start ≠ 0) (hl : l ∈ live ++ internals (pre ++ post)) :
    reg.start + reg.extent ≤ l.ptr ∨ l.ptr + l.size ≤ reg.start :=
  (List.pairwise_cons.mp (h.perm (blocks_perm hstart)).disjoint).1 l (List.mem_cons_of_mem _ hl)

/-- A change within a region does not change the bytes of the others. -/
lemma marks_of_others (h : InOrder r ⟨m, live ++ internals (pre ++ reg :: post)⟩)
    (hstart : reg.start ≠ 0)
    (hm : ∀ x, x < reg.start ∨ reg.start + reg.extent ≤ x → m' x = m x)
    (hreg' : reg' ∈ pre ++ post) (hwf : reg'.WellFormed m) (i : ℕ) (hi : i < reg'.elements) :
    m' (reg'.start + i) = m (reg'.start + i) := by
  rcases hwf with hdummy | ⟨k, hok⟩
  · rw [AlignRegion.elements, hdummy.size, Nat.zero_div] at hi
    omega
  · have hapart := start_apart h hstart
      (List.mem_append_right live (start_mem_internals hreg' hok.start))
    have := hok.data
    refine hm _ ?_
    dsimp only at hapart
    omega

lemma add_startData (hok : reg.Ok m k) (hend : reg.start + reg.extent < 2 ^ 32) :
    Word.add 32 reg.startData reg.size = reg.startData + reg.elements * 2 ^ k := by
  have := hok.data
  rw [hok.size, Word.add_eq (by omega)]

/-- The regions before the one that has the address are left as they are. -/
lemma freeAlignedFrom_append {addr : ℕ} {rest : List AlignRegion}
    (hpre : ∀ reg ∈ pre, ¬(reg.startData ≤ addr ∧ addr < Word.add 32 reg.startData reg.size)) :
    freeAlignedFrom r m addr (pre ++ rest) =
      (freeAlignedFrom r m addr rest).map (Option.map fun x => (x.1, pre ++ x.2)) := by
  induction pre with
  | nil => simp
  | cons reg pre ih =>
    rw [List.forall_mem_cons] at hpre
    rw [List.cons_append, freeAlignedFrom, if_neg hpre.1, ih hpre.2, Option.map_map]
    refine congrArg (fun f => Option.map f _) (funext fun x => ?_)
    cases x <;> rfl

lemma freeAlignedFrom_none {addr : ℕ}
    (hnone : ∀ reg ∈ regions,
      ¬(reg.startData ≤ addr ∧ addr < Word.add 32 reg.startData reg.size)) :
    freeAlignedFrom r m addr regions = some none := by
  have := @freeAlignedFrom_append r m _ addr [] hnone
  rwa [List.append_nil] at this

namespace Ordered

lemma bounds (h : Ordered r s) (hreg : reg ∈ s.heap.regions) (hok : reg.Ok s.heap.mem k) :
    r.hstart + HDRSIZE ≤ reg.start ∧ reg.start + reg.extent ≤ r.hend :=
  h.order.bounds (List.mem_append_right _ (start_mem_internals hreg hok.start))

/-- Other blocks of the program, and memory that has the same bytes for the elements. -/
lemma congr (h : Ordered r s) (hregions : h'.regions = s.heap.regions)
    (horder : InOrder r ⟨h'.mem, live ++ internals s.heap.regions⟩)
    (hm : ∀ reg ∈ s.heap.regions, reg.WellFormed s.heap.mem → ∀ i < reg.elements,
      h'.mem (reg.start + i) = s.heap.mem (reg.start + i)) :
    Ordered r ⟨h', live, s.aligned⟩ := by
  refine ⟨by rwa [hregions], fun reg hreg => ?_, fun b hb => ?_, h.apart⟩
  · rw [hregions] at hreg
    exact (h.region reg hreg).congr (hm reg hreg (h.region reg hreg))
  · obtain ⟨reg, hreg, first, hholds⟩ := h.placed b hb
    exact ⟨reg, by rwa [hregions], first, hholds.congr (hm reg hreg (h.region reg hreg))⟩

/-- The bytes for the elements are in a block of `malloc`. -/
lemma mark_mem (hreg : reg ∈ regions) (hwf : reg.WellFormed m) {i : ℕ} (hi : i < reg.elements) :
    ∃ l ∈ internals regions, l.ptr ≤ reg.start + i ∧ reg.start + i < l.ptr + l.size := by
  rcases hwf with hdummy | ⟨k, hok⟩
  · rw [AlignRegion.elements, hdummy.size, Nat.zero_div] at hi
    omega
  · refine ⟨_, start_mem_internals hreg hok.start, Nat.le_add_right _ _, ?_⟩
    have := hok.data
    dsimp only
    omega

/-- The block of a region is apart from those of the program and from those of the others. -/
lemma data_apart (h : Ordered r s) (hl : l ∈ s.live) (hreg : reg ∈ s.heap.regions)
    (hok : reg.Ok s.heap.mem k) :
    reg.start + reg.extent ≤ l.ptr ∨ l.ptr + l.size ≤ reg.start := by
  obtain ⟨pre, post, heq⟩ := List.append_of_mem hreg
  have horder := h.order
  rw [heq] at horder
  exact start_apart horder hok.start (List.mem_append_left _ hl)

/-- An address that a region has is in its block. -/
lemma of_address (h : Ordered r s) {addr : ℕ} (hreg : reg ∈ s.heap.regions)
    (haddr : reg.startData ≤ addr ∧ addr < Word.add 32 reg.startData reg.size) :
    ∃ k, reg.Ok s.heap.mem k ∧ reg.start < addr ∧ addr < reg.start + reg.extent := by
  obtain ⟨hle, hlt⟩ := haddr
  rcases h.region reg hreg with hdummy | ⟨k, hok⟩
  · rw [hdummy.size, Word.add, Nat.add_zero] at hlt
    have := Nat.mod_le reg.startData (2 ^ 32)
    omega
  · have hbounds := h.bounds hreg hok
    have hend := r.hend_lt
    have hdata := hok.data
    rw [add_startData hok (by omega)] at hlt
    have hpos : 0 < reg.elements := by
      by_contra hzero
      rw [show reg.elements = 0 by omega, Nat.zero_mul] at hlt
      omega
    exact ⟨k, hok, by omega, by omega⟩

/-- A block of `memalign` is aligned, in the heap, and apart from the blocks of `malloc`. -/
lemma aligned_bounds (h : Ordered r s) (hb : b ∈ s.aligned) :
    b.align ∣ b.ptr ∧ r.hstart + HDRSIZE ≤ b.ptr ∧ b.ptr + b.size ≤ r.hend ∧ 0 < b.extent ∧
      b.size ≤ b.extent ∧
      ∀ l ∈ s.live, b.ptr + b.extent ≤ l.ptr ∨ l.ptr + l.size ≤ b.ptr := by
  obtain ⟨reg, hreg, first, hholds⟩ := h.placed b hb
  obtain ⟨k, hok⟩ := hholds.ok (h.region reg hreg)
  have hbounds := h.bounds hreg hok
  have hdata := hok.data
  have hin := hholds.bounds hok
  have hle := hholds.size_le
  have hpos := hholds.extent_pos hok
  refine ⟨?_, by omega, by omega, hpos, hle, fun l hl => ?_⟩
  · rw [hholds.ptr, hok.startData, hholds.align, hok.alignment]
    exact Nat.dvd_add Word.dvd_roundUp (Nat.dvd_mul_right _ _)
  · have := h.data_apart hl hreg hok
    omega

/-! ### Blocks of `malloc` -/

lemma alloc (h : Ordered r s) (hsize : size < 2 ^ 32) : ∃ x,
    Malloc.alloc r s.heap.mem (toInt 32 size) = some x ∧
      ∀ nulls, Ordered r ⟨⟨x.1, s.heap.regions, nulls⟩, (Malloc.record s.live size x).held,
        s.aligned⟩ := by
  obtain ⟨x, heq, hx⟩ := h.order.alloc hsize
  refine ⟨x, heq, fun nulls => h.congr rfl ?_ fun reg hreg hwf i hi => ?_⟩
  · rw [Malloc.record] at hx ⊢
    split_ifs at hx ⊢
    · exact hx
    · exact hx
  · obtain ⟨l, hl, hle, hlt⟩ := mark_mem hreg hwf hi
    exact h.order.alloc_frame hsize heq (List.mem_append_right _ hl) hle hlt

lemma live_ptr_ne (h : Ordered r s) (hl : l ∈ s.live) {k : LiveBlock}
    (hk : k ∈ internals s.heap.regions) : k.ptr ≠ l.ptr := by
  obtain ⟨bs, -, -, htracks⟩ := h.order
  exact ((List.pairwise_append.mp htracks.nodup).2.2 l hl k hk).symm

/-- No region has the address of a block of `malloc`. -/
lemma freeAligned_live (h : Ordered r s) (hl : l ∈ s.live) :
    freeAligned r s.heap l.ptr = some none := by
  rw [freeAligned, freeAlignedFrom_none fun reg hreg haddr => ?_]
  · rfl
  · obtain ⟨k, hok, hgt, hlt⟩ := h.of_address hreg haddr
    have := h.data_apart hl hreg hok
    omega

lemma free_live (h : Ordered r s) (hl : l ∈ s.live) : ∃ h', free r s.heap l.ptr = some h' ∧
    h'.nulls = s.heap.nulls ∧ h'.regions = s.heap.regions ∧
      Ordered r ⟨h', Malloc.release s.live l.ptr, s.aligned⟩ := by
  have hl' : l ∈ s.live ++ internals s.heap.regions := List.mem_append_left _ hl
  obtain ⟨m', heq, hm'⟩ := h.order.free hl'
  refine ⟨{ s.heap with mem := m' }, ?_, rfl, rfl, h.congr rfl ?_ fun reg hreg hwf i hi => ?_⟩
  · rw [free, h.freeAligned_live hl]
    exact congrArg (Option.map _) heq
  · rwa [Malloc.release, List.filter_append, ← Malloc.release, ← Malloc.release,
      Malloc.release_eq fun k hk => h.live_ptr_ne hl hk] at hm'
  · obtain ⟨k, hk, hle, hlt⟩ := mark_mem hreg hwf hi
    exact h.order.free_frame hl' heq (List.mem_append_right _ hk) (h.live_ptr_ne hl hk) hle hlt

lemma aligned_ptr_ne (h : Ordered r s) (hl : l ∈ s.live) (hb : b ∈ s.aligned) :
    b.ptr ≠ l.ptr := by
  obtain ⟨reg, hreg, first, hholds⟩ := h.placed b hb
  obtain ⟨k, hok⟩ := hholds.ok (h.region reg hreg)
  have hin := hholds.bounds hok
  have hdata := hok.data
  have hfits := hholds.fits
  have hpos := hholds.elements_pos
  have hextent := hholds.extent_pos hok
  have := h.data_apart hl hreg hok
  omega

/-- The program changes a block of its own. -/
lemma write_live (h : Ordered r s) (hl : l ∈ s.live)
    (hm : ∀ x, x < l.ptr ∨ l.ptr + l.size ≤ x → m' x = s.heap.mem x) :
    Ordered r { s with heap := { s.heap with mem := m' } } := by
  refine h.congr rfl (h.order.write (List.mem_append_left _ hl) hm) fun reg hreg hwf i hi => hm _ ?_
  rcases hwf with hdummy | ⟨k, hok⟩
  · rw [AlignRegion.elements, hdummy.size, Nat.zero_div] at hi
    omega
  · have := h.data_apart hl hreg hok
    have := hok.data
    omega

/-- The program changes an aligned block. -/
lemma write_aligned (h : Ordered r s) (hb : b ∈ s.aligned)
    (hm : ∀ x, x < b.ptr ∨ b.ptr + b.size ≤ x → m' x = s.heap.mem x) :
    Ordered r { s with heap := { s.heap with mem := m' } } := by
  obtain ⟨reg, hreg, first, hholds⟩ := h.placed b hb
  obtain ⟨k, hok⟩ := hholds.ok (h.region reg hreg)
  have hin := hholds.bounds hok
  have hdata := hok.data
  have hle := hholds.size_le
  have hm' (x : ℕ) (hx : x < reg.start + reg.elements ∨ reg.start + reg.extent ≤ x) :
      m' x = s.heap.mem x := hm x (by omega)
  refine h.congr rfl ?_ fun reg' hreg' hwf i hi => ?_
  · exact h.order.write (List.mem_append_right _ (start_mem_internals hreg hok.start))
      fun x hx => hm' x (by dsimp only at hx; omega)
  · obtain ⟨pre, post, heq⟩ := List.append_of_mem hreg
    have horder := h.order
    rw [heq] at horder hreg'
    have hframe (x : ℕ) (hx : x < reg.start ∨ reg.start + reg.extent ≤ x) : m' x = s.heap.mem x :=
      hm' x (by omega)
    rcases List.mem_append.mp hreg' with hpre | hpost
    · exact marks_of_others horder hok.start hframe (List.mem_append_left _ hpre) hwf i hi
    · rcases List.mem_cons.mp hpost with rfl | hpost
      · exact hm' _ (by omega)
      · exact marks_of_others horder hok.start hframe (List.mem_append_right _ hpost) hwf i hi

/-! ### Elements of a region -/

section Replace

variable {s : State} (h : Ordered r s) (heq : s.heap.regions = pre ++ reg :: post)
  (hok : reg.Ok s.heap.mem k) (hfits : first + n ≤ reg.elements)
  (hm : ∀ x, x < reg.start + first ∨ reg.start + first + n ≤ x → m' x = s.heap.mem x)

include h heq hok hfits hm

/-- Changing the bytes of elements, and counting again, keeps the heap and the regions. -/
lemma replace : InOrder r ⟨m', s.live ++ internals
      (pre ++ { reg with free := zeros m' reg.start reg.elements } :: post)⟩ ∧
    ∀ reg' ∈ pre ++ { reg with free := zeros m' reg.start reg.elements } :: post,
      reg'.WellFormed m' := by
  have hreg : reg ∈ s.heap.regions := by simp [heq]
  have hdata := hok.data
  have hframe (x : ℕ) (hx : x < reg.start ∨ reg.start + reg.extent ≤ x) : m' x = s.heap.mem x :=
    hm x (by omega)
  have horder := h.order
  constructor
  · have hblocks : internals (pre ++ { reg with free := zeros m' reg.start reg.elements } :: post) =
        internals s.heap.regions := by
      rw [heq, internals, internals, List.flatMap_append, List.flatMap_append, List.flatMap_cons,
        List.flatMap_cons]
      rfl
    rw [hblocks]
    exact horder.write (List.mem_append_right _ (start_mem_internals hreg hok.start)) hframe
  · rw [heq] at horder
    have hother (reg' : AlignRegion) (hreg' : reg' ∈ pre ++ post) : reg'.WellFormed m' := by
      have hwf : reg'.WellFormed s.heap.mem := by
        refine h.region reg' ?_
        rw [heq]
        simp only [List.mem_append, List.mem_cons] at hreg' ⊢
        tauto
      exact hwf.congr (marks_of_others horder hok.start hframe hreg' hwf)
    intro reg' hreg'
    rcases List.mem_append.mp hreg' with hpre | hpost
    · exact hother reg' (List.mem_append_left _ hpre)
    · rcases List.mem_cons.mp hpost with rfl | hpost
      · exact .inr ⟨k, hok.alignment, hok.start, hok.size, hok.startData, rfl⟩
      · exact hother reg' (List.mem_append_right _ hpost)

/-- A block that has none of the elements is where it was. -/
lemma holds_replace {first' : ℕ} (hreg' : reg' ∈ s.heap.regions)
    (hb : reg'.Holds s.heap.mem b first')
    (hapart : reg' = reg → first' + b.elements ≤ first ∨ first + n ≤ first') :
    ∃ reg'' ∈ pre ++ { reg with free := zeros m' reg.start reg.elements } :: post,
      reg''.Holds m' b first' := by
  have hdata := hok.data
  have hframe (x : ℕ) (hx : x < reg.start ∨ reg.start + reg.extent ≤ x) : m' x = s.heap.mem x :=
    hm x (by omega)
  have horder := h.order
  have hwf := h.region reg' hreg'
  rw [heq] at horder hreg'
  by_cases hsame : reg' = reg
  · subst hsame
    refine ⟨_, List.mem_append_right _ List.mem_cons_self,
      ⟨hb.align, hb.ptr, hb.elements_pos, hb.size_le, hb.fits, ?_⟩⟩
    have := hapart rfl
    exact hb.marked.congr hb.elements_pos fun i hi => hm _ (by omega)
  · have hreg'' : reg' ∈ pre ++ post := by
      simp only [List.mem_append, List.mem_cons, hsame, false_or] at hreg' ⊢
      exact hreg'
    refine ⟨reg', ?_, hb.congr (marks_of_others horder hok.start hframe hreg'' hwf)⟩
    simp only [List.mem_append, List.mem_cons] at hreg'' ⊢
    tauto

end Replace

/-- Blocks of two regions are apart. -/
lemma apart_of_others (h : Ordered r s) (heq : s.heap.regions = pre ++ reg :: post)
    (hok : reg.Ok s.heap.mem k) {first' : ℕ} (hb : reg.Holds m b first)
    (hreg' : reg' ∈ s.heap.regions) (hne : reg' ≠ reg) (hc : reg'.Holds s.heap.mem c first') :
    b.ptr + b.extent ≤ c.ptr ∨ c.ptr + c.extent ≤ b.ptr := by
  obtain ⟨k', hok'⟩ := hc.ok (h.region reg' hreg')
  have horder := h.order
  rw [heq] at horder hreg'
  have hreg'' : reg' ∈ pre ++ post := by
    simp only [List.mem_append, List.mem_cons, hne, false_or] at hreg' ⊢
    exact hreg'
  have hapart := start_apart horder hok.start
    (List.mem_append_right s.live (start_mem_internals hreg'' hok'.start))
  have hdata := hok.data
  have hdata' := hok'.data
  have hin' := hc.bounds hok'
  have hin := hb.bounds hok
  dsimp only at hapart
  omega

/-- A block is taken from a region. -/
lemma take (h : Ordered r s) (heq : s.heap.regions = pre ++ reg :: post)
    (hok : reg.Ok s.heap.mem k) (hk : k < 32) (hsize : size < 2 ^ 32) (nulls : ℕ)
    (htake : takeFrom s.heap.mem (2 ^ k) size reg = some (m', reg', ptr)) :
    ptr ≠ 0 ∧ Ordered r ⟨⟨m', pre ++ reg' :: post, nulls⟩, s.live, ⟨ptr, 2 ^ k, size⟩ :: s.aligned⟩ := by
  have hreg : reg ∈ s.heap.regions := by simp [heq]
  have hbounds := h.bounds hreg hok
  have hend := r.hend_lt
  obtain ⟨ht, first, hfits, hzero, hmarked, hframe, rfl, rfl⟩ :=
    takeFrom_spec hok (by omega) htake
  have hle := size_le_target hk hsize ht
  have hdata := hok.data
  have hstart := hok.start
  have hholds : reg.Holds m' ⟨reg.startData + 2 ^ k * first, 2 ^ k, size⟩ first :=
    ⟨hok.alignment.symm, rfl, ht, hle, hfits, hmarked⟩
  obtain ⟨horder, hwf⟩ := h.replace heq hok hfits hframe
  refine ⟨by omega, horder, hwf, fun b hb => ?_, List.pairwise_cons.mpr ⟨fun b hb => ?_, h.apart⟩⟩
  · rcases List.mem_cons.mp hb with rfl | hb
    · exact ⟨_, List.mem_append_right _ List.mem_cons_self, first,
        hholds.align, hholds.ptr, ht, hle, hfits, hmarked⟩
    · obtain ⟨reg', hreg', first', hb'⟩ := h.placed b hb
      obtain ⟨reg'', hreg'', hb''⟩ := h.holds_replace heq hok hfits hframe hreg' hb' fun hsame => by
        subst hsame
        exact hb'.apart hzero ht
      exact ⟨reg'', hreg'', first', hb''⟩
  · obtain ⟨reg', hreg', first', hb'⟩ := h.placed b hb
    by_cases hsame : reg' = reg
    · subst hsame
      rw [hholds.ptr_le_iff hb' hok, hb'.ptr_le_iff hholds hok]
      exact (hb'.apart hzero ht).symm
    · exact h.apart_of_others heq hok hholds hreg' hsame hb'

/-- The elements of a block are free after it is freed, and nothing else has changed. -/
lemma free_aligned (h : Ordered r s) (hb : b ∈ s.aligned) : ∃ h', free r s.heap b.ptr = some h' ∧
    h'.nulls = s.heap.nulls ∧ Ordered r ⟨h', s.live, s.aligned.filter (·.ptr ≠ b.ptr)⟩ ∧
      ∃ reg ∈ h'.regions, ∃ k first, reg.Ok h'.mem k ∧ b.align = 2 ^ k ∧
        first + b.elements ≤ reg.elements ∧
          ∀ i, first ≤ i → i < first + b.elements → h'.mem (reg.start + i) = 0 := by
  obtain ⟨reg, hreg, first, hholds⟩ := h.placed b hb
  obtain ⟨k, hok⟩ := hholds.ok (h.region reg hreg)
  have hbounds := h.bounds hreg hok
  have hend := r.hend_lt
  have hheap := r.size_lt
  have hheap' : reg.extent < 2 ^ 31 := by omega
  have hdata := hok.data
  have hin := hholds.bounds hok
  have hpos := hholds.extent_pos hok
  have hfits := hholds.fits
  have helements := hholds.elements_pos
  have halign : b.align = 2 ^ k := hholds.align.trans hok.alignment
  obtain ⟨pre, post, heq⟩ := List.append_of_mem hreg
  have horder := h.order
  rw [heq] at horder
  have hpre (reg' : AlignRegion) (hreg' : reg' ∈ pre) :
      ¬(reg'.startData ≤ b.ptr ∧ b.ptr < Word.add 32 reg'.startData reg'.size) := fun haddr => by
    obtain ⟨k', hok', hgt, hlt⟩ := h.of_address (by simp [heq, hreg']) haddr
    have hapart := start_apart horder hok.start (List.mem_append_right s.live
      (start_mem_internals (List.mem_append_left post hreg') hok'.start))
    dsimp only at hapart
    omega
  have hindex := hholds.index_eq hok hheap' (by omega)
  let m' := s.heap.mem.memset (reg.start + first) 0 b.elements
  have hmem (x : ℕ) (hx : x < reg.start + first ∨ reg.start + first + b.elements ≤ x) :
      m' x = s.heap.mem x := Mem.memset_frame hx
  have hzero (i : ℕ) (hi : first ≤ i) (hi' : i < first + b.elements) : m' (reg.start + i) = 0 :=
    if_pos (by omega)
  have hzeros := @zeros_fill m' s.heap.mem _ _ _ _ hfits hzero
    (fun i hi hi' => by
      have := hholds.marked.ne_zero (i := i - first) (by omega)
      rwa [show reg.start + first + (i - first) = reg.start + i by omega] at this)
    (fun i _ hi => (hmem _ (by omega)).symm)
  have hfree : Word.add 32 reg.free b.elements = zeros m' reg.start reg.elements := by
    have hcard : zeros m' reg.start reg.elements ≤ reg.elements :=
      (Finset.card_filter_le _ _).trans (Finset.card_range _).le
    rw [hok.free, hzeros, Word.add_eq (by omega)]
  obtain ⟨hreplaced, hwf⟩ := h.replace heq hok hfits hmem
  refine ⟨{ s.heap with
    mem := m'
    regions := pre ++ { reg with free := zeros m' reg.start reg.elements } :: post }, ?_, rfl,
    ⟨hreplaced, hwf, fun c hc => ?_, h.apart.filter _⟩, _,
    List.mem_append_right _ List.mem_cons_self, k, first,
    ⟨hok.alignment, hok.start, hok.size, hok.startData, rfl⟩, halign, hfits, hzero⟩
  · have hhere : reg.startData ≤ b.ptr ∧ b.ptr < Word.add 32 reg.startData reg.size := by
      rw [add_startData hok (by omega)]
      omega
    have hunmark := unmark_spec (r.hend - r.hstart) hholds.marked helements (by omega)
    simp only [free, freeAligned, heq, freeAlignedFrom_append hpre, freeAlignedFrom, if_pos hhere,
      hindex, hunmark, Option.map_some, hfree]
    rfl
  · rw [List.mem_filter] at hc
    obtain ⟨reg', hreg', first', hc'⟩ := h.placed c hc.1
    obtain ⟨reg'', hreg'', hc''⟩ := h.holds_replace heq hok hfits hmem hreg' hc' fun hsame => by
      subst hsame
      rw [← hc'.ptr_le_iff hholds hok, ← hholds.ptr_le_iff hc' hok]
      have hne : c ≠ b := by
        rintro rfl
        simp at hc
      have : Std.Symm fun b c : AlignedBlock =>
        b.ptr + b.extent ≤ c.ptr ∨ c.ptr + c.extent ≤ b.ptr := ⟨fun _ _ => Or.symm⟩
      exact h.apart.forall hc.1 hb hne
    exact ⟨reg'', hreg'', first', hc''⟩

end Ordered

end ApuBios.Memalign
