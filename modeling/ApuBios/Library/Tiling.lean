import Mathlib.Tactic

/-!
# Blocks that tile an interval

`Tiles start len a xs b` says that the blocks `xs`, in order, cover `[a, b)` exactly: the first
begins at `a`, each begins where the one before it ends, and the last ends at `b`.
-/

namespace Tiling

variable {B : Type*} (start len : B → ℕ)

def Tiles (a : ℕ) : List B → ℕ → Prop
  | [], b => a = b
  | x :: xs, b => start x = a ∧ Tiles (a + len x) xs b

variable {start len} {a b c : ℕ} {x : B} {xs ys : List B}

@[simp] lemma tiles_nil : Tiles start len a [] b ↔ a = b := Iff.rfl

@[simp] lemma tiles_cons :
    Tiles start len a (x :: xs) b ↔ start x = a ∧ Tiles start len (a + len x) xs b := Iff.rfl

lemma tiles_append :
    Tiles start len a (xs ++ ys) b ↔ ∃ c, Tiles start len a xs c ∧ Tiles start len c ys b := by
  induction xs generalizing a with
  | nil => simp
  | cons x xs ih => simp [ih, and_assoc]

lemma tiles_map {C : Type*} {f : C → B} {zs : List C} :
    Tiles start len a (zs.map f) b ↔ Tiles (start ∘ f) (len ∘ f) a zs b := by
  induction zs generalizing a with
  | nil => rfl
  | cons z zs ih => simp [ih]

/-- A change of one block matters only if it starts elsewhere or has another length. -/
lemma tiles_modify {f : B → B} {k : ℕ} (hstart : ∀ x, start (f x) = start x)
    (hlen : ∀ x, len (f x) = len x) :
    Tiles start len a (xs.modify k f) b ↔ Tiles start len a xs b := by
  induction xs generalizing a k with
  | nil => simp
  | cons x xs ih =>
    cases k with
    | zero => simp [hstart, hlen]
    | succ k => simp [ih]

namespace Tiles

lemma sum_len (h : Tiles start len a xs b) : a + (xs.map len).sum = b := by
  induction xs generalizing a with
  | nil => simpa using h
  | cons x xs ih =>
    have := ih h.2
    simp only [List.map_cons, List.sum_cons]
    omega

lemma le (h : Tiles start len a xs b) : a ≤ b := by
  have := h.sum_len
  omega

lemma mem_bounds (h : Tiles start len a xs b) (hx : x ∈ xs) :
    a ≤ start x ∧ start x + len x ≤ b := by
  induction xs generalizing a with
  | nil => simp at hx
  | cons y ys ih =>
    obtain ⟨hy, hys⟩ := h
    rcases List.mem_cons.mp hx with rfl | hx
    · have := hys.le
      omega
    · have := ih hys hx
      omega

/-- Later blocks begin where earlier ones have ended. -/
lemma pairwise (h : Tiles start len a xs b) :
    xs.Pairwise fun x y => start x + len x ≤ start y := by
  induction xs generalizing a with
  | nil => exact .nil
  | cons x xs ih =>
    obtain ⟨hx, hxs⟩ := h
    refine List.pairwise_cons.mpr ⟨fun y hy => ?_, ih hxs⟩
    have := (hxs.mem_bounds hy).1
    omega

/-- Two blocks are the same or lie apart. -/
lemma eq_or_disjoint (h : Tiles start len a xs b) (hx : x ∈ xs) {y : B} (hy : y ∈ xs) :
    x = y ∨ start x + len x ≤ start y ∨ start y + len y ≤ start x := by
  induction xs generalizing a with
  | nil => simp at hx
  | cons z zs ih =>
    obtain ⟨hz, hzs⟩ := h
    rcases List.mem_cons.mp hx with rfl | hx' <;> rcases List.mem_cons.mp hy with rfl | hy'
    · exact Or.inl rfl
    · have := hzs.mem_bounds hy'
      omega
    · have := hzs.mem_bounds hx'
      omega
    · exact ih hzs hx' hy'

end Tiles

/-! ### Addresses that wrap around -/

/-- The blocks tile `[a, b)`, and the start of each is known modulo `m`. -/
def TilesMod (start len : B → ℕ) (m a : ℕ) : List B → ℕ → Prop
  | [], b => a = b
  | x :: xs, b => start x = a % m ∧ TilesMod start len m (a + len x) xs b

variable {m : ℕ}

@[simp] lemma tilesMod_nil : TilesMod start len m a [] b ↔ a = b := Iff.rfl

@[simp] lemma tilesMod_cons : TilesMod start len m a (x :: xs) b ↔
    start x = a % m ∧ TilesMod start len m (a + len x) xs b := Iff.rfl

namespace TilesMod

/-- Where the tiling starts matters modulo `m` only. -/
lemma shift (h : TilesMod start len m a xs b) {k : ℕ} (hk : m ∣ k) :
    TilesMod start len m (a + k) xs (b + k) := by
  obtain ⟨q, rfl⟩ := hk
  induction xs generalizing a with
  | nil => exact congrArg (· + _) h
  | cons x xs ih =>
    refine ⟨by rw [Nat.add_mul_mod_self_left, h.1], ?_⟩
    rw [Nat.add_right_comm]
    exact ih h.2

lemma of_mod (h : TilesMod start len m (a % m) xs (a % m + b)) :
    TilesMod start len m a xs (a + b) := by
  have hshift := h.shift (Nat.dvd_mul_left m (a / m))
  rwa [Nat.add_right_comm, Nat.mod_add_div'] at hshift

end TilesMod

end Tiling
