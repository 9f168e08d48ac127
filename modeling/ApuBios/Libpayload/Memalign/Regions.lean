import ApuBios.Libpayload.Memalign.Basic
import ApuBios.Libpayload.Malloc.Properties

/-!
# The regions of aligned blocks

A region is a block of `malloc` with a byte for each of its elements, and then the elements. A block
of `memalign` is a run of elements whose bytes say where it ends.
-/

namespace ApuBios.Memalign

open Word (ofInt toInt)

open Malloc (Region LiveBlock HDRSIZE InOrder)

variable {r : Region} {m m' m₁ : Mem} {reg reg' : AlignRegion} {b c : AlignedBlock}
  {align size start first count i n k p : ℕ}

/-! ### The bytes of a block -/

/-- The bytes of a block of `n` elements. -/
def Marked (m : Mem) (p n : ℕ) : Prop := (∀ i, i + 1 < n → m (p + i) = 2) ∧ m (p + n - 1) = 1

/-- The number of free elements. -/
def zeros (m : Mem) (start count : ℕ) : ℕ :=
  ((Finset.range count).filter fun i => m (start + i) = 0).card

lemma Marked.ne_zero (h : Marked m p n) (hi : i < n) : m (p + i) ≠ 0 := by
  by_cases hlast : i + 1 < n
  · rw [h.1 i hlast]
    decide
  · rw [show p + i = p + n - 1 by omega, h.2]
    decide

lemma Marked.congr (h : Marked m p n) (hn : 0 < n) (hm : ∀ i < n, m' (p + i) = m (p + i)) :
    Marked m' p n := by
  refine ⟨fun i hi => (hm i (by omega)).trans (h.1 i hi), ?_⟩
  have := hm (n - 1) (by omega)
  rwa [show p + (n - 1) = p + n - 1 by omega, h.2] at this

lemma marked_update (m : Mem) (hn : 0 < n) :
    Marked (Function.update (m.memset p 2 (n - 1)) (p + n - 1) 1) p n := by
  refine ⟨fun i hi => ?_, Function.update_self _ _ _⟩
  rw [Function.update_of_ne (by omega), Mem.memset, if_pos (by omega)]

lemma update_memset_frame {x : ℕ} (hn : 0 < n) (hx : x < p ∨ p + n ≤ x) :
    Function.update (m.memset p 2 (n - 1)) (p + n - 1) 1 x = m x := by
  rw [Function.update_of_ne (by omega), Mem.memset_frame (by omega)]

lemma unmark_spec (fuel : ℕ) (h : Marked m p n) (hn : 0 < n) (hfuel : n ≤ fuel) :
    unmark m p fuel = some (m.memset p 0 n, n) := by
  induction fuel generalizing m p n with
  | zero => omega
  | succ fuel ih =>
    rw [unmark]
    by_cases hone : n = 1
    · subst hone
      have hlast : m p = 1 := h.2
      rw [if_neg (by rw [hlast]; decide)]
      refine congrArg (fun m => some (m, 1)) (funext fun x => ?_)
      by_cases hx : x = p
      · rw [hx, Function.update_self, Mem.memset, if_pos (by omega)]
      · rw [Function.update_of_ne hx, Mem.memset_frame (by omega)]
    · have hfirst : m p = 2 := h.1 0 (by omega)
      have hrest : Marked (Function.update m p 0) (p + 1) (n - 1) := by
        refine ⟨fun i hi => ?_, ?_⟩
        · rw [Function.update_of_ne (by omega), show p + 1 + i = p + (i + 1) by omega]
          exact h.1 (i + 1) (by omega)
        · rw [Function.update_of_ne (by omega), show p + 1 + (n - 1) - 1 = p + n - 1 by omega]
          exact h.2
      rw [if_pos hfirst, ih hrest (by omega) (by omega), Option.map_some]
      refine congrArg some (Prod.ext (funext fun x => ?_) (Nat.sub_add_cancel hn))
      change Mem.memset (Function.update m p 0) (p + 1) 0 (n - 1) x = m.memset p 0 n x
      by_cases hx : p ≤ x ∧ x < p + n
      · rw [Mem.memset, Mem.memset, if_pos hx]
        by_cases hp : x = p
        · rw [if_neg (by omega), hp, Function.update_self]
        · rw [if_pos (by omega)]
      · rw [Mem.memset_frame (by omega), Mem.memset_frame (by omega),
          Function.update_of_ne (by omega)]

/-- A run of free elements is taken, or given back. -/
lemma zeros_fill (hfits : first + n ≤ count)
    (hzero : ∀ i, first ≤ i → i < first + n → m (start + i) = 0)
    (hnonzero : ∀ i, first ≤ i → i < first + n → m' (start + i) ≠ 0)
    (hout : ∀ i < count, i < first ∨ first + n ≤ i → m' (start + i) = m (start + i)) :
    zeros m start count = zeros m' start count + n := by
  have hunion : (Finset.range count).filter (fun i => m (start + i) = 0) =
      ((Finset.range count).filter fun i => m' (start + i) = 0) ∪ Finset.Ico first (first + n) := by
    ext i
    simp only [Finset.mem_filter, Finset.mem_range, Finset.mem_union, Finset.mem_Ico]
    by_cases hin : first ≤ i ∧ i < first + n
    · have := hzero i hin.1 hin.2
      simp only [this, hin, and_true, and_self, or_true, iff_true]
      omega
    · by_cases hi : i < count
      · rw [hout i hi (by omega)]
        simp only [hi, hin, true_and, or_false]
      · simp only [hi, hin, false_and, or_false]
  have hdisj : Disjoint ((Finset.range count).filter fun i => m' (start + i) = 0)
      (Finset.Ico first (first + n)) := by
    rw [Finset.disjoint_left]
    intro i hi hin
    rw [Finset.mem_Ico] at hin
    exact hnonzero i hin.1 hin.2 (Finset.mem_filter.mp hi).2
  rw [zeros, hunion, Finset.card_union_of_disjoint hdisj, Nat.card_Ico, Nat.add_sub_cancel_left]
  rfl

lemma zeros_congr (h : ∀ i < count, m' (start + i) = m (start + i)) :
    zeros m' start count = zeros m start count := by
  refine congrArg Finset.card (Finset.filter_congr fun i hi => ?_)
  rw [h i (Finset.mem_range.mp hi)]

/-! ### The search -/

lemma findFree_some {t rest : ℕ} (hcount : count ≤ i)
    (hrun : ∀ j, i - count ≤ j → j < i → m (start + j) = 0)
    (h : findFree m start t i count rest = some first) :
    first + t ≤ i + rest ∧ ∀ j, first ≤ j → j < first + t → m (start + j) = 0 := by
  induction rest generalizing i count with
  | zero => cases h
  | succ rest ih =>
    rw [findFree] at h
    split_ifs at h with hzero hfound
    · obtain rfl := Option.some.inj h
      refine ⟨by omega, fun j hj hj' => ?_⟩
      by_cases hi : j = i
      · rwa [hi]
      · exact hrun j (by omega) (by omega)
    · have := ih (by omega) (fun j hj hj' => ?_) h
      · exact ⟨by omega, this.2⟩
      · by_cases hi : j = i
        · rwa [hi]
        · exact hrun j (by omega) (by omega)
    · have := ih (Nat.zero_le _) (fun j hj hj' => by omega) h
      exact ⟨by omega, this.2⟩

lemma pos_of_findFree {t rest : ℕ} (h : findFree m start t i count rest = some first) : 0 < t := by
  induction rest generalizing i count with
  | zero => cases h
  | succ rest ih =>
    rw [findFree] at h
    split_ifs at h with hzero hfound
    · omega
    · exact ih h
    · exact ih h

/-- The number of elements. -/
def AlignRegion.elements (reg : AlignRegion) : ℕ := reg.size / reg.alignment

/-- The size that `malloc` was asked for. -/
def AlignRegion.extent (reg : AlignRegion) : ℕ := (reg.elements + 1) * reg.alignment + reg.elements

/-- What `malloc` has given for a region. -/
def AlignRegion.blocks (reg : AlignRegion) : List LiveBlock :=
  ⟨reg.addr, REGION_SIZE⟩ :: if reg.start = 0 then [] else [⟨reg.start, reg.extent⟩]

def internals (regions : List AlignRegion) : List LiveBlock := regions.flatMap AlignRegion.blocks

/-- The region that the first call makes has no elements. -/
structure AlignRegion.Dummy (reg : AlignRegion) : Prop where
  alignment : reg.alignment = 0
  start : reg.start = 0
  size : reg.size = 0

/-- A region of elements of `2 ^ k` bytes. -/
structure AlignRegion.Ok (reg : AlignRegion) (m : Mem) (k : ℕ) : Prop where
  alignment : reg.alignment = 2 ^ k
  start : reg.start ≠ 0
  size : reg.size = reg.elements * 2 ^ k
  startData : reg.startData = Word.roundUp (reg.start + reg.elements) k
  free : reg.free = zeros m reg.start reg.elements

def AlignRegion.WellFormed (reg : AlignRegion) (m : Mem) : Prop := reg.Dummy ∨ ∃ k, reg.Ok m k

namespace AlignRegion

lemma Ok.extent_eq (h : reg.Ok m k) : reg.extent = (reg.elements + 1) * 2 ^ k + reg.elements := by
  rw [extent, h.alignment]

/-- The elements are behind the bytes for them, and in the block. -/
lemma Ok.data (h : reg.Ok m k) : reg.start + reg.elements ≤ reg.startData ∧
    reg.startData + reg.elements * 2 ^ k < reg.start + reg.extent := by
  have hlt : Word.roundUp (reg.start + reg.elements) k < _ := Word.roundUp_lt
  rw [h.startData, h.extent_eq, Nat.add_mul, Nat.one_mul]
  exact ⟨Word.le_roundUp, by omega⟩

lemma Ok.zeros_le (h : reg.Ok m k) : reg.free ≤ reg.elements := by
  rw [h.free]
  exact (Finset.card_filter_le _ _).trans (Finset.card_range _).le

lemma WellFormed.congr (h : reg.WellFormed m)
    (hm : ∀ i < reg.elements, m' (reg.start + i) = m (reg.start + i)) : reg.WellFormed m' := by
  refine h.imp_right fun ⟨k, hk⟩ => ⟨k, hk.alignment, hk.start, hk.size, hk.startData, ?_⟩
  rw [hk.free, zeros_congr hm]

end AlignRegion

/-! ### Blocks in regions -/

/-- The elements of a block. -/
def AlignedBlock.elements (b : AlignedBlock) : ℕ := target b.align b.size

def AlignedBlock.extent (b : AlignedBlock) : ℕ := b.align * b.elements

/-- The block is the elements from `first` on. -/
structure AlignRegion.Holds (reg : AlignRegion) (m : Mem) (b : AlignedBlock) (first : ℕ) :
    Prop where
  align : b.align = reg.alignment
  ptr : b.ptr = reg.startData + b.align * first
  elements_pos : 0 < b.elements
  size_le : b.size ≤ b.extent
  fits : first + b.elements ≤ reg.elements
  marked : Marked m (reg.start + first) b.elements

namespace AlignRegion.Holds

lemma congr (h : reg.Holds m b first)
    (hm : ∀ i < reg.elements, m' (reg.start + i) = m (reg.start + i)) : reg.Holds m' b first := by
  have hfits := h.fits
  refine ⟨h.align, h.ptr, h.elements_pos, h.size_le, h.fits, h.marked.congr h.elements_pos fun i hi => ?_⟩
  rw [Nat.add_assoc]
  exact hm _ (by omega)

/-- The block is in the elements of the region. -/
lemma bounds (h : reg.Holds m b first) (hok : reg.Ok m' k) :
    reg.startData ≤ b.ptr ∧ b.ptr + b.extent ≤ reg.startData + reg.elements * 2 ^ k := by
  have halign : b.align = 2 ^ k := h.align.trans hok.alignment
  have hmul : 2 ^ k * (first + b.elements) ≤ 2 ^ k * reg.elements := Nat.mul_le_mul_left _ h.fits
  rw [Nat.mul_add] at hmul
  rw [h.ptr, AlignedBlock.extent, halign, Nat.mul_comm reg.elements]
  omega

lemma ok (h : reg.Holds m b first) (hreg : reg.WellFormed m) : ∃ k, reg.Ok m k := by
  refine hreg.resolve_left fun hdummy => ?_
  have hfits := h.fits
  have hpos := h.elements_pos
  rw [AlignRegion.elements, hdummy.size, Nat.zero_div] at hfits
  omega

lemma extent_pos (h : reg.Holds m b first) (hok : reg.Ok m' k) : 0 < b.extent := by
  have halign : b.align = 2 ^ k := h.align.trans hok.alignment
  have := h.elements_pos
  rw [AlignedBlock.extent, halign]
  positivity

/-- Elements that are free are not part of a block. -/
lemma apart (h : reg.Holds m b first) {first' n : ℕ}
    (hzero : ∀ i, first' ≤ i → i < first' + n → m (reg.start + i) = 0) (hn : 0 < n) :
    first + b.elements ≤ first' ∨ first' + n ≤ first := by
  by_contra hover
  have hpos := h.elements_pos
  have := h.marked.ne_zero (i := max first first' - first) (by omega)
  rw [Nat.add_assoc] at this
  exact this (hzero _ (by omega) (by omega))

/-- The order of two blocks of a region is that of their elements. -/
lemma ptr_le_iff (hb : reg.Holds m b first) (hc : reg.Holds m' c n) (hok : reg.Ok m₁ k) :
    b.ptr + b.extent ≤ c.ptr ↔ first + b.elements ≤ n := by
  have hb' : b.align = 2 ^ k := hb.align.trans hok.alignment
  have hc' : c.align = 2 ^ k := hc.align.trans hok.alignment
  rw [hb.ptr, hc.ptr, AlignedBlock.extent, hb', hc', Nat.add_assoc, ← Nat.mul_add,
    Nat.add_le_add_iff_left]
  exact Nat.mul_le_mul_left_iff (by positivity)

/-- `free_aligned` finds the first element of the block. -/
lemma index_eq (h : reg.Holds m b first) (hok : reg.Ok m' k) (hextent : reg.extent < 2 ^ 31)
    (hend : reg.start + reg.extent < 2 ^ 32) :
    ofInt 32 (reg.start + (toInt 32 (b.ptr - reg.startData)).tdiv (toInt 32 reg.alignment)) =
      reg.start + first := by
  have hfits := h.fits
  have hpos := h.elements_pos
  have hdiff : (b.ptr : ℤ) - reg.startData = (2 ^ k * first : ℕ) := by
    rw [h.ptr, h.align, hok.alignment]
    push_cast
    ring
  have hmul : 2 ^ k * first ≤ 2 ^ k * reg.elements := Nat.mul_le_mul_left _ (by omega)
  rw [Nat.mul_comm _ reg.elements] at hmul
  have hpow : 0 < 2 ^ k := by positivity
  have hextent' := hok.extent_eq
  rw [Nat.add_mul, Nat.one_mul] at hextent'
  rw [hdiff, Word.toInt_eq (by omega), hok.alignment, Word.toInt_eq (by omega), ← Int.ofNat_tdiv,
    Nat.mul_div_cancel_left _ (by positivity), ← Nat.cast_add, Word.ofInt_eq (by omega)]

end AlignRegion.Holds

/-! ### Taking elements -/

/-- A block has enough elements, unless `size + align - 1` wraps to less than an element. -/
lemma size_le_target (hk : k < 32) (hsize : size < 2 ^ 32) (ht : 0 < target (2 ^ k) size) :
    size ≤ 2 ^ k * target (2 ^ k) size := by
  have hpos : 0 < 2 ^ k := by positivity
  have hcast : (size : ℤ) + (2 ^ k : ℕ) - 1 = (size + (2 ^ k - 1) : ℕ) := by omega
  rw [target, hcast] at ht ⊢
  by_cases hlt : size + (2 ^ k - 1) < 2 ^ 32
  · rw [Word.ofInt_eq hlt, Nat.mul_comm]
    exact Word.le_roundUp
  · have hpow : 2 ^ k ≤ 2 ^ 31 := Nat.pow_le_pow_right (by decide) (by omega)
    have hwrap : ofInt 32 ((size + (2 ^ k - 1) : ℕ) : ℤ) = size + (2 ^ k - 1) - 2 ^ 32 := by
      rw [ofInt]
      omega
    rw [hwrap, Nat.div_eq_of_lt (by omega)] at ht
    omega

/-- What is taken from a region. -/
lemma takeFrom_spec (hok : reg.Ok m k) (hend : reg.start + reg.extent < 2 ^ 32)
    (h : takeFrom m (2 ^ k) size reg = some (m', reg', p)) :
    0 < target (2 ^ k) size ∧ ∃ first, first + target (2 ^ k) size ≤ reg.elements ∧
      (∀ i, first ≤ i → i < first + target (2 ^ k) size → m (reg.start + i) = 0) ∧
      Marked m' (reg.start + first) (target (2 ^ k) size) ∧
      (∀ x, x < reg.start + first ∨ reg.start + first + target (2 ^ k) size ≤ x → m' x = m x) ∧
      reg' = { reg with free := zeros m' reg.start reg.elements } ∧
      p = reg.startData + 2 ^ k * first := by
  rw [takeFrom, Option.map_eq_some_iff] at h
  obtain ⟨first, hfind, h⟩ := h
  have ht := pos_of_findFree hfind
  obtain ⟨hm, hreg, hp⟩ : _ ∧ _ ∧ _ := by simpa only [Prod.mk.injEq] using h
  have hsize : reg.size / 2 ^ k = reg.elements := by rw [AlignRegion.elements, hok.alignment]
  rw [hsize] at hfind
  obtain ⟨hfits, hzero⟩ := findFree_some le_rfl (fun j _ hj => by omega) hfind
  rw [Nat.zero_add] at hfits
  have hdata := hok.data
  have hmarked := marked_update m (p := reg.start + first) ht
  have hframe (x : ℕ) (hx : x < reg.start + first ∨ reg.start + first + target (2 ^ k) size ≤ x) :=
    update_memset_frame (m := m) ht hx
  rw [hm] at hmarked hframe
  have hzeros := @zeros_fill m m' _ _ _ _ hfits hzero
    (fun i hi hi' => by
      have := hmarked.ne_zero (i := i - first) (by omega)
      rwa [show reg.start + first + (i - first) = reg.start + i by omega] at this)
    (fun i _ hi => hframe _ (by omega))
  refine ⟨ht, first, hfits, hzero, hmarked, hframe, ?_, ?_⟩
  · have hle := hok.zeros_le
    rw [← hreg, hok.free, hzeros, Word.sub_eq (by omega), Nat.add_sub_cancel]
    rw [hok.free, hzeros] at hle
    omega
  · have hmul : 2 ^ k * first ≤ 2 ^ k * reg.elements := Nat.mul_le_mul_left _ (by omega)
    rw [Nat.mul_comm _ reg.elements] at hmul
    rw [← hp, ← Nat.cast_mul, ← Nat.cast_add, Word.ofInt_eq (by omega)]

end ApuBios.Memalign
