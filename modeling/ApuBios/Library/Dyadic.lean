import ApuBios.Library.Tiling

/-!
# Aligned blocks

Blocks of a power of two that are aligned to their size. An interval that is tiled from the front
with the largest block that fits each time cannot be covered with fewer of them.
-/

namespace Dyadic

structure Block where
  start : ℕ
  exp : ℕ
  aligned : 2 ^ exp ∣ start

namespace Block

def size (x : Block) : ℕ := 2 ^ x.exp

/-- The number is in the block. -/
def Has (x : Block) (p : ℕ) : Prop := x.start ≤ p ∧ p < x.start + x.size

variable {x y : Block} {p : ℕ}

lemma size_pos (x : Block) : 0 < x.size := Nat.two_pow_pos _

lemma has_start (x : Block) : x.Has x.start := ⟨le_rfl, Nat.lt_add_of_pos_right x.size_pos⟩

lemma has_last (x : Block) : x.Has (x.start + x.size - 1) := by
  have := x.size_pos
  exact ⟨by omega, by omega⟩

/-- A smaller block that starts in a larger one ends in it. -/
lemma end_le (hexp : x.exp ≤ y.exp) (h : y.Has x.start) : x.start + x.size ≤ y.start + y.size := by
  have hdvd : x.size ∣ y.start + y.size - x.start :=
    Nat.dvd_sub (Nat.dvd_add ((pow_dvd_pow 2 hexp).trans y.aligned) (pow_dvd_pow 2 hexp)) x.aligned
  have := Nat.le_of_dvd (by have := h.2; omega) hdvd
  have := h.2
  omega

/-- A larger block that starts in a smaller one starts with it. -/
lemma start_eq (hexp : y.exp ≤ x.exp) (h : y.Has x.start) : x.start = y.start := by
  have hdvd : y.size ∣ x.start - y.start :=
    Nat.dvd_sub ((pow_dvd_pow 2 hexp).trans x.aligned) y.aligned
  have hlt : x.start - y.start < y.size := by
    have := h.1
    have := h.2
    omega
  have := Nat.eq_zero_of_dvd_of_lt hdvd hlt
  have := h.1
  omega

end Block

/-- In whatever order, and with overlaps or not, the blocks are the interval `[a, b)`. -/
def Covers (xs : List Block) (a b : ℕ) : Prop := ∀ p, (∃ x ∈ xs, x.Has p) ↔ a ≤ p ∧ p < b

/-- No larger block fits at the start of this one. -/
def Largest (x : Block) (b : ℕ) : Prop :=
  x.start + x.size ≤ b ∧ ∀ y : Block, y.start = x.start → y.start + y.size ≤ b → y.exp ≤ x.exp

/-- The blocks follow each other from `a` to `b`, each of them the largest one that fits. -/
inductive Greedy (b : ℕ) : ℕ → List Block → Prop
  | nil : Greedy b b []
  | cons {x : Block} {xs : List Block} :
      Largest x b → Greedy b (x.start + x.size) xs → Greedy b x.start (x :: xs)

variable {a b p : ℕ} {x y : Block} {xs ys : List Block}

lemma Greedy.tiles (h : Greedy b a xs) : Tiling.Tiles Block.start Block.size a xs b := by
  induction h with
  | nil => rfl
  | cons _ _ ih => exact ⟨rfl, ih⟩

/-- Blocks that tile an interval cover it. -/
lemma covers_of_tiles (h : Tiling.Tiles Block.start Block.size a xs b) : Covers xs a b := by
  induction xs generalizing a with
  | nil =>
    obtain rfl : a = b := h
    intro p
    simp
  | cons x xs ih =>
    obtain ⟨rfl, hxs⟩ := h
    have hle := hxs.le
    intro p
    simp only [List.mem_cons, exists_eq_or_imp]
    rw [ih hxs p, Block.Has]
    have := x.size_pos
    omega

lemma Covers.bounds (h : Covers ys a b) (hy : y ∈ ys) : a ≤ y.start ∧ y.start + y.size ≤ b := by
  have hfirst := (h _).mp ⟨y, hy, y.has_start⟩
  have hlast := (h _).mp ⟨y, hy, y.has_last⟩
  have := y.size_pos
  omega

/-- What starts in the largest block at the front of a cover ends in it. -/
lemma Largest.end_le (hx : Largest x b) (hy : y.start + y.size ≤ b) (h : x.Has y.start) :
    y.start + y.size ≤ x.start + x.size := by
  rcases Nat.le_total y.exp x.exp with hexp | hexp
  · exact Block.end_le hexp h
  · exact Block.end_le (hx.2 y (Block.start_eq hexp h) hy) h

/-- The blocks of a cover that are not in the largest one at its front cover the rest. -/
lemma Covers.rest (h : Covers ys x.start b) (hx : Largest x b) :
    Covers (ys.filter fun y => x.start + x.size ≤ y.start) (x.start + x.size) b := by
  intro p
  constructor
  · rintro ⟨y, hy, hp⟩
    rw [List.mem_filter, decide_eq_true_eq] at hy
    have := (h.bounds hy.1).2
    exact ⟨hy.2.trans hp.1, hp.2.trans_le this⟩
  · rintro ⟨hle, hlt⟩
    obtain ⟨y, hy, hp⟩ := (h p).mpr ⟨by omega, hlt⟩
    refine ⟨y, ?_, hp⟩
    rw [List.mem_filter, decide_eq_true_eq]
    refine ⟨hy, not_lt.mp fun hstart => ?_⟩
    obtain ⟨hge, hend⟩ := h.bounds hy
    have := hx.end_le hend ⟨hge, hstart⟩
    have := hp.2
    omega

/-- By induction on the tiling: every cover has a block that starts in the first one of the tiling,
and the others that do not cover the rest. -/
theorem Greedy.length_le (h : Greedy b a xs) (hys : Covers ys a b) : xs.length ≤ ys.length := by
  induction h generalizing ys with
  | nil => exact Nat.zero_le _
  | @cons x xs hx _ ih =>
    have hpos := x.size_pos
    have hrest := ih (hys.rest hx)
    obtain ⟨y, hy, hfirst⟩ := (hys x.start).mpr ⟨le_rfl, by have := hx.1; omega⟩
    have hlt : (ys.filter fun y => x.start + x.size ≤ y.start).length < ys.length := by
      refine List.length_filter_lt_length_iff_exists.mpr ⟨y, hy, ?_⟩
      have := hfirst.1
      rw [decide_eq_true_eq]
      omega
    rw [List.length_cons]
    omega

end Dyadic
