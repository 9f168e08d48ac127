import ApuBios.Libpayload.Memalign.Properties

/-!
# Runs with aligned blocks

`memalign` returns a block or has been refused one by `malloc`, as long as the size of a region that
is needed for a block fits into 32 bits.
-/

namespace ApuBios.Memalign

open Transition
open Word (ofInt toInt)
open Malloc (Region LiveBlock HDRSIZE InOrder hasMagic readHeader)

variable {r : Region} {m m' : Mem} {reg reg' : AlignRegion} {regions pre post : List AlignRegion}
  {b c : AlignedBlock} {aligned : List AlignedBlock} {l : LiveBlock} {live : List LiveBlock}
  {s : State} {align size n k nulls ptr : ℕ}

/-- The size of a region that is allocated for such a block. -/
def regionSize (align size : ℕ) : ℕ :=
  (numElements align size + 1) * align + numElements align size

/-- The size fits into 32 bits, or what is left of it is refused by `malloc` whatever the heap. -/
def NoOverflow (align size : ℕ) : Prop :=
  regionSize align size < 2 ^ 32 ∨ ¬Malloc.Asks (ofInt 32 (regionSize align size))

/-! ### The regions that are there -/

/-- The region that a block was taken from. -/
lemma lookFurther_some {x : Mem × List AlignRegion × ℕ}
    (h : lookFurther m align size regions = some x) :
    ∃ pre reg post reg', regions = pre ++ reg :: post ∧ x.2.1 = pre ++ reg' :: post ∧
      reg.alignment = align ∧ takeFrom m align size reg = some (x.1, reg', x.2.2) := by
  induction regions generalizing x with
  | nil => cases h
  | cons reg rest ih =>
    rw [lookFurther] at h
    split at h
    · next m' reg' ptr htake =>
      obtain rfl := Option.some.inj h
      split_ifs at htake with hmatch
      exact ⟨[], reg, rest, reg', rfl, rfl, hmatch.1, htake⟩
    · obtain ⟨y, hy, rfl⟩ := Option.map_eq_some_iff.mp h
      obtain ⟨pre, reg₁, post, reg', rfl, hregions, halign, htake⟩ := ih hy
      exact ⟨reg :: pre, reg₁, post, reg', rfl, by rw [hregions]; rfl, halign, htake⟩

namespace Ordered

lemma lookFurther (h : Ordered r s) (hk : k < 32) (hsize : size < 2 ^ 32) (nulls : ℕ) {skip : ℕ}
    {x : Mem × List AlignRegion × ℕ}
    (hlook : lookFurther s.heap.mem (2 ^ k) size (s.heap.regions.drop skip) = some x) :
    x.2.2 ≠ 0 ∧ Ordered r ⟨⟨x.1, s.heap.regions.take skip ++ x.2.1, nulls⟩, s.live,
      ⟨x.2.2, 2 ^ k, size⟩ :: s.aligned⟩ := by
  obtain ⟨pre, reg, post, reg', hdrop, hregions, halign, htake⟩ := lookFurther_some hlook
  have heq : s.heap.regions = (s.heap.regions.take skip ++ pre) ++ reg :: post := by
    rw [List.append_assoc, ← hdrop, List.take_append_drop]
  have hreg : reg ∈ s.heap.regions := by
    rw [heq]
    simp
  obtain ⟨k', hok⟩ : ∃ k, reg.Ok s.heap.mem k := by
    refine (h.region reg hreg).resolve_left fun hdummy => ?_
    have hpos : 0 < 2 ^ k := by positivity
    rw [hdummy.alignment] at halign
    omega
  obtain rfl : k' = k := Nat.pow_right_injective le_rfl (hok.alignment.symm.trans halign)
  rw [hregions, ← List.append_assoc]
  exact h.take heq hok hk hsize nulls htake

/-! ### A new region -/

lemma malloc (h : Ordered r s) (hsize : size < 2 ^ 32) : ∃ x, malloc r s.heap size = some x ∧
    x.1.regions = s.heap.regions ∧
      x.1.nulls = (if x.2 = 0 then s.heap.nulls + 1 else s.heap.nulls) ∧
        Ordered r ⟨x.1, (Malloc.record s.live size (x.1.mem, x.2)).held, s.aligned⟩ := by
  obtain ⟨x, heq, hx⟩ := h.alloc hsize
  refine ⟨(⟨x.1, s.heap.regions, if x.2 = 0 then s.heap.nulls + 1 else s.heap.nulls⟩, x.2), ?_,
    rfl, rfl, hx _⟩
  rw [Memalign.malloc, Malloc.malloc, heq]
  rfl

end Ordered

/-- A size that is refused. -/
lemma malloc_of_not_asks {h : Heap} {x : Heap × ℕ} (hasks : ¬Malloc.Asks size)
    (heq : malloc r h size = some x) : x.2 = 0 := by
  rw [Malloc.Asks, not_not] at hasks
  rw [malloc, Malloc.malloc, Malloc.alloc, if_pos hasks] at heq
  rw [← Option.some.inj heq]

/-- The region that `allocate_region` makes. -/
def newRegion (addr alignment start numElements : ℕ) : AlignRegion :=
  { addr
    alignment
    start
    startData := Word.alignDown 32 (ofInt 32 (start + numElements + alignment - 1)) alignment
    size := ofInt 32 (numElements * alignment)
    free := numElements }

lemma zeros_memset : zeros (m.memset ptr 0 n) ptr n = n := by
  have := @zeros_fill (m.memset ptr 0 n) (fun _ => 1) ptr 0 n n (by omega)
    (fun i _ hi => if_pos (by omega)) (fun _ _ _ => by decide)
    (fun i hi hi' => by omega)
  rw [this]
  simp [zeros]

lemma newRegion_ok (addr : ℕ) (hpos : ptr ≠ 0) (hend : ptr + ((n + 1) * 2 ^ k + n) < 2 ^ 32)
    (hk : k < 32) : (newRegion addr (2 ^ k) ptr n).elements = n ∧
      (newRegion addr (2 ^ k) ptr n).Ok (m.memset ptr 0 n) k := by
  have hpow : 0 < 2 ^ k := by positivity
  rw [Nat.add_mul, Nat.one_mul] at hend
  have hsize : (newRegion addr (2 ^ k) ptr n).size = n * 2 ^ k := by
    rw [newRegion, ← Nat.cast_mul, Word.ofInt_eq (by omega)]
  have helements : (newRegion addr (2 ^ k) ptr n).elements = n := by
    rw [AlignRegion.elements, hsize]
    exact Nat.mul_div_cancel n hpow
  refine ⟨helements, rfl, hpos, by rw [helements, hsize], ?_, ?_⟩
  · have hcast : (ptr : ℤ) + n + (2 ^ k : ℕ) - 1 = (ptr + n + (2 ^ k - 1) : ℕ) := by omega
    rw [helements]
    change Word.alignDown 32 (ofInt 32 ((ptr : ℤ) + n + (2 ^ k : ℕ) - 1)) (2 ^ k) = _
    rw [hcast, Word.ofInt_eq (by omega), Word.alignDown_eq (by omega) (by omega)]
    rfl
  · rw [helements]
    exact zeros_memset.symm

/-- The last block that was allocated is released. -/
lemma Ordered.release_cons {heap : Heap} (h : Ordered r ⟨heap, l :: live, aligned⟩) :
    Malloc.release (l :: live) l.ptr = live := by
  obtain ⟨bs, -, -, htracks⟩ := h.order
  have hne := (List.pairwise_cons.mp htracks.nodup).1
  rw [Malloc.release, List.filter_cons_of_neg (by simp)]
  exact Malloc.release_eq fun k hk => (hne k (List.mem_append_left _ hk)).symm

/-- `allocate_region` adds a region, or `malloc` has refused a block. -/
lemma Ordered.allocateRegion (h : Ordered r s) (hk : k < 32)
    (hfit : (n + 1) * 2 ^ k + n < 2 ^ 32 ∨ ¬Malloc.Asks (ofInt 32 ((n + 1) * 2 ^ k + n : ℕ))) :
    ∃ h' res, allocateRegion r s.heap (2 ^ k) n = some (h', res) ∧ Ordered r ⟨h', s.live, s.aligned⟩ ∧
      s.heap.nulls ≤ h'.nulls ∧ (res = none → s.heap.nulls < h'.nulls) ∧
        ∀ reg ∈ res, h'.regions = reg :: s.heap.regions ∧ reg.Ok h'.mem k := by
  obtain ⟨⟨h₁, p⟩, heq₁, hregions₁, hnulls₁, ho₁⟩ := h.malloc (show REGION_SIZE < 2 ^ 32 by decide)
  dsimp only at hregions₁ hnulls₁ ho₁
  simp only [Memalign.allocateRegion, heq₁]
  by_cases hp : p = 0
  · rw [if_pos hp] at hnulls₁ ⊢
    rw [Malloc.record, if_pos hp] at ho₁
    exact ⟨h₁, none, rfl, ho₁, by omega, fun _ => by omega, fun reg hreg => by cases hreg⟩
  rw [if_neg hp] at hnulls₁ ⊢
  rw [Malloc.record, if_neg hp] at ho₁
  obtain ⟨⟨h₂, q⟩, heq₂, hregions₂, hnulls₂, ho₂⟩ :=
    ho₁.malloc (show ofInt 32 ((n + 1) * 2 ^ k + n : ℕ) < 2 ^ 32 from Word.ofInt_lt)
  have hcast : ((n : ℤ) + 1) * (2 ^ k : ℕ) + n = ((n + 1) * 2 ^ k + n : ℕ) := by push_cast; rfl
  rw [hcast]
  dsimp only at heq₂ hregions₂ hnulls₂ ho₂
  simp only [heq₂]
  by_cases hq : q = 0
  · -- there is no space for the elements
    rw [if_pos hq] at hnulls₂ ⊢
    rw [Malloc.record, if_pos hq] at ho₂
    obtain ⟨h₃, heq₃, hnulls₃, -, ho₃⟩ := ho₂.free_live List.mem_cons_self
    dsimp only at heq₃ hnulls₃ ho₃
    rw [ho₂.release_cons] at ho₃
    rw [heq₃]
    exact ⟨h₃, none, rfl, ho₃, by omega, fun _ => by omega, fun reg hreg => by cases hreg⟩
  · rw [if_neg hq] at hnulls₂ ⊢
    replace hfit : (n + 1) * 2 ^ k + n < 2 ^ 32 :=
      hfit.resolve_right fun hasks => hq (malloc_of_not_asks hasks heq₂)
    rw [Malloc.record, if_neg hq, Word.ofInt_eq hfit] at ho₂
    let reg := newRegion p (2 ^ k) q n
    have hbounds := ho₂.order.bounds (l := ⟨q, (n + 1) * 2 ^ k + n⟩) (by simp)
    have hend := r.hend_lt
    obtain ⟨helements, hok⟩ := newRegion_ok (m := h₂.mem) p hq
      (show q + ((n + 1) * 2 ^ k + n) < 2 ^ 32 by dsimp only at hbounds; omega) hk
    have hwrite : Ordered r ⟨⟨h₂.mem.memset q 0 n, h₂.regions, h₂.nulls⟩,
        ⟨q, (n + 1) * 2 ^ k + n⟩ :: ⟨p, REGION_SIZE⟩ :: s.live, s.aligned⟩ := by
      refine ho₂.write_live (l := ⟨q, (n + 1) * 2 ^ k + n⟩) List.mem_cons_self fun x hx => ?_
      exact Mem.memset_frame (by dsimp only at hx; omega)
    refine ⟨⟨h₂.mem.memset q 0 n, reg :: h₂.regions, h₂.nulls⟩, some reg, rfl, ?_, by simp only; omega,
      (fun h => by cases h), fun reg' hreg' => ?_⟩
    · refine ⟨hwrite.order.perm ?_, fun reg' hreg' => ?_, fun b hb => ?_, hwrite.apart⟩
      · have hextent : reg.extent = (n + 1) * 2 ^ k + n := by
          rw [AlignRegion.extent, helements]
          rfl
        have hperm := @blocks_perm reg [] h₂.regions s.live hok.start
        rw [hextent] at hperm
        exact hperm.symm
      · rcases List.mem_cons.mp hreg' with rfl | hreg'
        · exact .inr ⟨k, hok⟩
        · exact hwrite.region reg' hreg'
      · obtain ⟨reg', hreg', first, hholds⟩ := hwrite.placed b hb
        exact ⟨reg', List.mem_cons_of_mem _ hreg', first, hholds⟩
    · obtain rfl := Option.some.inj hreg'
      exact ⟨by rw [hregions₂, hregions₁], hok⟩

/-! ### `memalign` -/

/-- A block is returned, or `malloc` has refused one. -/
def Returns (r : Region) (s : State) (align size : ℕ) (x : Heap × ℕ) : Prop :=
  (x.2 = 0 → s.heap.nulls < x.1.nulls) ∧
    Ordered r ⟨x.1, s.live, if x.2 = 0 then s.aligned else ⟨x.2, align, size⟩ :: s.aligned⟩

lemma returns_of_block {x : Heap × ℕ} (hx : x.2 ≠ 0)
    (h : Ordered r ⟨x.1, s.live, ⟨x.2, align, size⟩ :: s.aligned⟩) : Returns r s align size x :=
  ⟨fun hzero => absurd hzero hx, by rwa [if_neg hx]⟩

/-- A round adds two blocks to the heap unless it is the last. -/
lemma memalignLoop_spec (hk : k < 32) (hfit : NoOverflow (2 ^ k) size) (hsize : size < 2 ^ 32)
    (fuel skip : ℕ) (h : Ordered r s)
    (hfuel : r.hend - r.hstart < fuel + (s.live ++ internals s.heap.regions).length) :
    ∃ x, memalignLoop r (2 ^ k) size fuel s.heap skip = some x ∧ Returns r s (2 ^ k) size x := by
  induction fuel generalizing s skip with
  | zero =>
    have := h.order.length_le
    dsimp only at this
    have := r.room
    omega
  | succ fuel ih =>
    rw [memalignLoop]
    cases hlook : Memalign.lookFurther s.heap.mem (2 ^ k) size (s.heap.regions.drop skip) with
    | some x =>
      obtain ⟨hptr, ho⟩ := h.lookFurther hk hsize s.heap.nulls hlook
      exact ⟨_, rfl, returns_of_block hptr ho⟩
    | none =>
      obtain ⟨h', res, heq, ho, hnulls, hnone, hsome⟩ := h.allocateRegion hk hfit
      rw [heq]
      cases res with
      | none => exact ⟨_, rfl, fun _ => hnone rfl, ho⟩
      | some reg =>
        obtain ⟨hregions, hok⟩ := hsome reg rfl
        dsimp only
        cases htake : takeFrom h'.mem (2 ^ k) size reg with
        | some x =>
          obtain ⟨hptr, ho'⟩ := ho.take
            (show h'.regions = [] ++ reg :: s.heap.regions from hregions) hok hk hsize h'.nulls htake
          refine ⟨_, rfl, returns_of_block hptr ?_⟩
          rw [hregions]
          exact ho'
        | none =>
          have hlength : (s.live ++ internals h'.regions).length =
              (s.live ++ internals s.heap.regions).length + 2 := by
            rw [hregions, internals, List.flatMap_cons, AlignRegion.blocks, if_neg hok.start]
            simp [internals]
            omega
          obtain ⟨x, hx, hzero, hx'⟩ := ih 1 ho (by dsimp only; omega)
          exact ⟨x, hx, fun hptr => hnulls.trans_lt (hzero hptr), hx'⟩

/-- The region that the first call makes keeps the heap in order. -/
lemma Ordered.first_region {heap : Heap} (h : Ordered r ⟨heap, ⟨ptr, REGION_SIZE⟩ :: live, aligned⟩)
    (hregions : heap.regions = []) :
    Ordered r ⟨{ heap with regions := [⟨ptr, 0, 0, 0, 0, 0⟩] }, live, aligned⟩ := by
  have horder := h.order
  rw [hregions] at horder
  refine ⟨horder.perm ?_, fun reg hreg => ?_, fun b hb => ?_, h.apart⟩
  · simp only [internals, List.flatMap_nil, List.append_nil]
    exact (List.perm_append_singleton _ _).symm
  · obtain rfl := List.mem_singleton.mp hreg
    exact .inl ⟨rfl, rfl, rfl⟩
  · obtain ⟨reg, hreg, -⟩ := h.placed b hb
    rw [hregions] at hreg
    cases hreg

/-- `memalign` returns, and keeps the heap in order. -/
lemma memalign_spec (hk : k < 32) (hfit : NoOverflow (2 ^ k) size) (hpos : 0 < size)
    (hsize : size < 2 ^ 32) (h : Ordered r s) :
    ∃ x, memalign r s.heap (2 ^ k) size = some x ∧ Returns r s (2 ^ k) size x := by
  rw [memalign, if_neg (by omega)]
  by_cases hregions : s.heap.regions = []
  · rw [if_pos hregions]
    obtain ⟨⟨h₁, p⟩, heq, hregions₁, hnulls, ho⟩ := h.malloc (show REGION_SIZE < 2 ^ 32 by decide)
    dsimp only at hregions₁ hnulls ho
    rw [heq]
    dsimp only
    by_cases hp : p = 0
    · rw [if_pos hp] at hnulls ⊢
      rw [Malloc.record, if_pos hp] at ho
      exact ⟨_, rfl, fun _ => by simp only; omega, ho⟩
    · rw [if_neg hp] at hnulls ⊢
      rw [Malloc.record, if_neg hp] at ho
      have ho' := ho.first_region (hregions₁.trans hregions)
      obtain ⟨x, hx, hzero, hx'⟩ := memalignLoop_spec hk hfit hsize (r.hend - r.hstart) 0 ho'
        (by simp [internals, AlignRegion.blocks])
      exact ⟨x, hx, fun hptr => hnulls ▸ hzero hptr, hx'⟩
  · rw [if_neg hregions]
    refine memalignLoop_spec hk hfit hsize _ 0 h ?_
    obtain ⟨reg, rest, hcons⟩ := List.exists_cons_of_ne_nil hregions
    rw [hcons, internals, List.flatMap_cons, AlignRegion.blocks]
    simp

/-- What is expected of a call of `memalign`. -/
def Good (r : Region) (s : State) (align size : ℕ) : Prop :=
  ∃ x, memalign r s.heap align size = some x ∧
    if x.2 = 0 then
      s.heap.nulls < x.1.nulls
    else
      align ∣ x.2 ∧ r.hstart ≤ x.2 ∧ x.2 + size ≤ r.hend ∧
        (∀ l ∈ s.live, x.2 + size ≤ l.ptr ∨ l.ptr + l.size ≤ x.2) ∧
        (∀ b ∈ s.aligned, x.2 + size ≤ b.ptr ∨ b.ptr + b.size ≤ x.2) ∧
        ∃ h, free r x.1 x.2 = some h ∧ ∃ y, memalign r h align size = some y ∧ y.2 ≠ 0

namespace Ordered

lemma free_null (h : Ordered r s) : free r s.heap 0 = some s.heap := by
  rw [free, freeAligned, freeAlignedFrom_none fun reg hreg haddr => ?_]
  · exact congrArg (Option.map _) Malloc.free_null
  · obtain ⟨k, -, hgt, -⟩ := h.of_address hreg haddr
    omega

lemma live_ptr_ne_zero (h : Ordered r s) (hl : l ∈ s.live) : l.ptr ≠ 0 := by
  have := (h.order.bounds (List.mem_append_left _ hl)).1
  rw [HDRSIZE] at this
  omega

lemma aligned_ptr_ne_zero (h : Ordered r s) (hb : b ∈ s.aligned) : b.ptr ≠ 0 := by
  have := (h.aligned_bounds hb).2.1
  rw [HDRSIZE] at this
  omega

lemma filter_aligned (hne : ∀ b ∈ s.aligned, b.ptr ≠ ptr) :
    s.aligned.filter (·.ptr ≠ ptr) = s.aligned :=
  List.filter_eq_self.mpr fun b hb => by simpa using hne b hb

/-- `free` of any pointer that the program may free. -/
lemma free (h : Ordered r s) (hptr : Freeable s ptr) :
    ∃ h', Memalign.free r s.heap ptr = some h' ∧ Ordered r { s.release ptr with heap := h' } := by
  rcases hptr with rfl | ⟨l, hl, rfl⟩ | ⟨b, hb, rfl⟩
  · refine ⟨_, h.free_null, ?_⟩
    rw [State.release, Malloc.release_eq fun l hl => h.live_ptr_ne_zero hl,
      filter_aligned fun b hb => h.aligned_ptr_ne_zero hb]
    exact h
  · obtain ⟨h', heq, -, -, ho⟩ := h.free_live hl
    refine ⟨h', heq, ?_⟩
    rw [State.release, filter_aligned fun b hb => h.aligned_ptr_ne hl hb]
    exact ho
  · obtain ⟨h', heq, -, ho, -⟩ := h.free_aligned hb
    refine ⟨h', heq, ?_⟩
    rw [State.release, Malloc.release_eq fun l hl => (h.aligned_ptr_ne hl hb).symm]
    exact ho

lemma calloc (h : Ordered r s) {nmemb : ℕ} (hsize : nmemb * size < 2 ^ 32) :
    ∃ t, calloc r s nmemb size = some t ∧ Ordered r t := by
  obtain ⟨x, heq, hx⟩ := h.alloc hsize
  have htotal : ofInt 32 ((nmemb : ℤ) * size) = nmemb * size := by
    rw [← Nat.cast_mul, Word.ofInt_eq hsize]
  have hcalloc : Malloc.calloc r s.heap.mem nmemb size =
      some (if x.2 ≠ 0 then x.1.memset x.2 0 (nmemb * size) else x.1, x.2) := by
    simp only [Malloc.calloc, htotal, heq, Option.bind_eq_bind, Option.bind_some]
    split_ifs <;> rfl
  rw [Memalign.calloc, hcalloc]
  refine ⟨_, rfl, ?_⟩
  have ho := hx s.heap.nulls
  simp only [Malloc.record] at ho ⊢
  by_cases hptr : x.2 = 0
  · rw [if_pos hptr] at ho ⊢
    rw [if_neg (not_not.mpr hptr)]
    exact ho
  · rw [if_neg hptr] at ho ⊢
    rw [if_pos hptr]
    exact ho.write_live (l := ⟨x.2, nmemb * size⟩) List.mem_cons_self fun y hy => Mem.memset_frame hy

lemma realloc (h : Ordered r s) (hsize : size < 2 ^ 32) (hptr : Freeable s ptr) :
    ∃ t, realloc r s ptr size = some t ∧ Ordered r t := by
  rw [Memalign.realloc]
  by_cases hzero : ptr = 0
  · obtain ⟨x, heq, hx⟩ := h.alloc hsize
    rw [if_pos hzero, heq]
    exact ⟨_, rfl, hx s.heap.nulls⟩
  rw [if_neg hzero]
  dsimp only
  by_cases hmagic : hasMagic (readHeader s.heap.mem (ofInt 32 (ptr - HDRSIZE))) = true
  · rw [if_neg (not_not.mpr hmagic)]
    obtain ⟨h', hfree, ho⟩ := h.free hptr
    obtain ⟨x, heq, hx⟩ := ho.alloc hsize
    rw [hfree, Option.bind_some]
    dsimp only at heq
    rw [heq]
    refine ⟨_, rfl, ?_⟩
    have ho' := hx h'.nulls
    dsimp only
    by_cases hret : x.2 = 0 ∨ x.2 = ptr
    · rw [if_pos hret]
      exact ho'
    · rw [if_neg hret]
      rw [not_or] at hret
      simp only [Malloc.record, if_neg hret.1] at ho' ⊢
      refine ho'.write_live (l := ⟨x.2, size⟩) List.mem_cons_self fun y hy => Mem.memcpy_frame ?_
      dsimp only at hy
      split_ifs <;> omega
  · rw [if_pos hmagic]
    exact ⟨s, rfl, h⟩

end Ordered

/-- No region that is needed is too large for 32 bits. -/
def Call.Fits : Call → Prop
  | .memalign align size => NoOverflow align size
  | _ => True

/-- Every call returns, and keeps the heap in order. -/
lemma step_ordered {c : Call} (h : Ordered r s) (hc : c.Legal s) (hfit : c.Fits) :
    ∃ t, step r s c = some t ∧ Ordered r t := by
  cases c with
  | malloc size =>
    obtain ⟨x, heq, -, -, ho⟩ := h.malloc hc
    exact ⟨_, by rw [step, heq]; rfl, ho⟩
  | calloc nmemb size => exact h.calloc hc
  | realloc ptr size => exact h.realloc hc.1 hc.2
  | free ptr =>
    obtain ⟨h', heq, ho⟩ := h.free hc
    exact ⟨_, by rw [step, heq]; rfl, ho⟩
  | memalign align size =>
    obtain ⟨⟨k, hk, rfl⟩, hpos, hsize⟩ := hc
    obtain ⟨x, heq, -, ho⟩ := memalign_spec hk hfit hpos hsize h
    exact ⟨_, by rw [step, heq]; rfl, ho⟩
  | store addr value =>
    refine ⟨_, rfl, ?_⟩
    rcases hc with ⟨l, hl, hle, hlt⟩ | ⟨b, hb, hle, hlt⟩
    · exact h.write_live hl fun x hx => Function.update_of_ne (by omega) _ _
    · exact h.write_aligned hb fun x hx => Function.update_of_ne (by omega) _ _

/-! ### Runs -/

/-- The heap has not been set up. -/
structure Untouched (r : Region) (s : State) : Prop where
  magic : hasMagic (readHeader s.heap.mem r.hstart) = false
  regions : s.heap.regions = []
  live : s.live = []
  aligned : s.aligned = []

/-- The first call that asks for a block finds the heap as if it had been set up. -/
lemma Untouched.alloc (h : Untouched r s) (size : ℕ) :
    Malloc.alloc r s.heap.mem (toInt 32 size) = some (s.heap.mem, 0) ∨
      ∃ m, Ordered r { s with heap := { s.heap with mem := m } } ∧
        Malloc.alloc r s.heap.mem (toInt 32 size) = Malloc.alloc r m (toInt 32 size) := by
  rcases Malloc.alloc_untouched size h.magic with ⟨-, heq⟩ | ⟨-, m, b, hb, hchain, heq⟩
  · exact .inl heq
  · refine .inr ⟨m, ⟨?_, ?_, ?_, ?_⟩, heq⟩
    · simpa [h.live, h.regions, internals] using Malloc.inOrder_of_single hb hchain
    · simp [h.regions]
    · simp [h.aligned]
    · simp [h.aligned]

lemma Untouched.malloc (h : Untouched r s) (size : ℕ) :
    malloc r s.heap size = some ({ s.heap with nulls := s.heap.nulls + 1 }, 0) ∨
      ∃ m, Ordered r { s with heap := { s.heap with mem := m } } ∧
        malloc r s.heap size = malloc r { s.heap with mem := m } size := by
  rcases h.alloc size with heq | ⟨m, ho, heq⟩
  · exact .inl (by simp [Memalign.malloc, Malloc.malloc, heq])
  · exact .inr ⟨m, ho, by simp only [Memalign.malloc, Malloc.malloc, heq]⟩

lemma Untouched.memalign (h : Untouched r s) (align : ℕ) (hsize : 0 < size) :
    memalign r s.heap align size = some ({ s.heap with nulls := s.heap.nulls + 1 }, 0) ∨
      ∃ m, Ordered r { s with heap := { s.heap with mem := m } } ∧
        memalign r s.heap align size = memalign r { s.heap with mem := m } align size := by
  rcases h.malloc REGION_SIZE with heq | ⟨m, ho, heq⟩
  · refine .inl ?_
    simp only [Memalign.memalign, if_neg hsize.ne', if_pos h.regions, heq, if_true]
  · refine .inr ⟨m, ho, ?_⟩
    simp only [Memalign.memalign, if_neg hsize.ne', if_pos h.regions, heq]

lemma Untouched.free_null (h : Untouched r s) : free r s.heap 0 = some s.heap := by
  simp only [free, freeAligned, h.regions, freeAlignedFrom, Malloc.free_null, Option.map_some,
    Option.map_none]
  rw [← h.regions]

lemma Untouched.freeable (h : Untouched r s) (hptr : Freeable s ptr) : ptr = 0 := by
  rcases hptr with rfl | ⟨l, hl, -⟩ | ⟨b, hb, -⟩
  · rfl
  · rw [h.live] at hl
    cases hl
  · rw [h.aligned] at hb
    cases hb

/-- A call that asks for no block changes nothing before the heap is set up, and any other leads to
a heap in order. -/
lemma step_untouched {c : Call} (h : Untouched r s) (hc : c.Legal s) (hfit : c.Fits) :
    ∃ t, step r s c = some t ∧ (Ordered r t ∨ Untouched r t) := by
  obtain ⟨⟨m, regions, nulls⟩, live, aligned⟩ := s
  obtain ⟨hmagic, rfl, rfl, rfl⟩ : _ ∧ regions = [] ∧ live = [] ∧ aligned = [] :=
    ⟨h.magic, h.regions, h.live, h.aligned⟩
  have hordered {m' : Mem} (ho : Ordered r ⟨⟨m', [], nulls⟩, [], []⟩)
      (heq : step r ⟨⟨m, [], nulls⟩, [], []⟩ c = step r ⟨⟨m', [], nulls⟩, [], []⟩ c) :
      ∃ t, step r ⟨⟨m, [], nulls⟩, [], []⟩ c = some t ∧ (Ordered r t ∨ Untouched r t) := by
    have hc' : c.Legal ⟨⟨m', [], nulls⟩, [], []⟩ := by cases c <;> exact hc
    obtain ⟨t, ht, ho'⟩ := step_ordered ho hc' hfit
    exact ⟨t, heq.trans ht, .inl ho'⟩
  cases c with
  | malloc size =>
    rcases h.malloc size with heq | ⟨m, ho, heq⟩
    · exact ⟨⟨⟨m, [], nulls + 1⟩, [], []⟩, by rw [step, heq]; rfl, .inr ⟨hmagic, rfl, rfl, rfl⟩⟩
    · exact hordered ho (by simp only [step, heq])
  | calloc nmemb size =>
    have htotal : ofInt 32 ((nmemb : ℤ) * size) = nmemb * size := by
      rw [← Nat.cast_mul]
      exact Word.ofInt_eq hc
    rcases h.alloc (nmemb * size) with heq | ⟨m, ho, heq⟩
    · refine ⟨_, ?_, .inr h⟩
      simp only [step, calloc, Malloc.calloc, htotal, heq]
      rfl
    · exact hordered ho (by simp only [step, calloc, Malloc.calloc, htotal, heq])
  | realloc ptr size =>
    obtain rfl := h.freeable hc.2
    rcases h.alloc size with heq | ⟨m, ho, heq⟩
    · refine ⟨_, ?_, .inr h⟩
      simp only [step, realloc, if_true, heq]
      rfl
    · exact hordered ho (by simp only [step, realloc, if_true, heq])
  | free ptr =>
    obtain rfl := h.freeable hc
    refine ⟨_, ?_, .inr h⟩
    rw [step, h.free_null]
    rfl
  | memalign align size =>
    rcases h.memalign align hc.2.1 with heq | ⟨m, ho, heq⟩
    · exact ⟨⟨⟨m, [], nulls + 1⟩, [], []⟩, by rw [step, heq]; rfl, .inr ⟨hmagic, rfl, rfl, rfl⟩⟩
    · exact hordered ho (by simp only [step, heq])
  | store addr value =>
    rcases hc with ⟨l, hl, -⟩ | ⟨b, hb, -⟩
    · cases hl
    · cases hb

/-- A heap of 4 KiB. -/
def page : Region where
  hstart := 0x100000
  hend := 0x101000
  hstart_pos := by decide
  hstart_aligned := by decide
  hend_aligned := by decide
  room := by decide
  hend_lt := by decide
  size_lt := by decide

end ApuBios.Memalign
