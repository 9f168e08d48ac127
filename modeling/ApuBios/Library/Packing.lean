import Mathlib.Tactic

/-!
# Placing blocks one after the other

Blocks are placed in the order of a list, each at the first place `start x a` that suits it at or
above the end `x` of the one before.
-/

namespace Packing

variable {α : Type*} (start : ℕ → α → ℕ) (size : α → ℕ)

/-- Where the last block ends if the first may begin at `x`. -/
def pack (x : ℕ) : List α → ℕ
  | [] => x
  | a :: as => pack (start x a + size a) as

variable {start size} {start' : ℕ → α → ℕ} {size' : α → ℕ} {x b : ℕ} {a : α} {l k : List α}

@[simp] lemma pack_nil : pack start size x [] = x := rfl

lemma pack_cons : pack start size x (a :: l) = pack start size (start x a + size a) l := rfl

lemma pack_append : pack start size x (l ++ k) = pack start size (pack start size x l) k := by
  induction l generalizing x with
  | nil => rfl
  | cons a l ih => exact ih

lemma le_pack (h : ∀ x, ∀ a ∈ l, x ≤ start x a) : x ≤ pack start size x l := by
  induction l generalizing x with
  | nil => exact le_rfl
  | cons a l ih =>
    have hrest : start x a + size a ≤ pack start size (start x a + size a) l :=
      ih fun y c hc => h y c (by simp [hc])
    have := h x a (by simp)
    rw [pack_cons]
    omega

/-- A block ends before all blocks end. -/
lemma start_add_size_le_pack (h : ∀ x, ∀ a ∈ k, x ≤ start x a) :
    start (pack start size x l) a + size a ≤ pack start size x (l ++ a :: k) := by
  rw [pack_append, pack_cons]
  exact le_pack h

/-- Packing is the same everywhere if the places are. -/
lemma pack_shift (h : ∀ x, ∀ a ∈ l, start (b + x) a = b + start x a) :
    pack start size (b + x) l = b + pack start size x l := by
  induction l generalizing x with
  | nil => rfl
  | cons a l ih =>
    rw [pack_cons, pack_cons, h x a (by simp), Nat.add_assoc,
      ih fun y c hc => h y c (by simp [hc])]

lemma pack_congr (hstart : ∀ x, ∀ a ∈ l, start' x a = start x a) (hsize : ∀ a ∈ l, size' a = size a) :
    pack start' size' x l = pack start size x l := by
  induction l generalizing x with
  | nil => rfl
  | cons a l ih =>
    rw [pack_cons, pack_cons, hstart x a (by simp), hsize a (by simp),
      ih (fun y c hc => hstart y c (by simp [hc])) fun c hc => hsize c (by simp [hc])]

end Packing
