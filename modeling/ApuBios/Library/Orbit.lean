import Mathlib.Tactic

/-!
# Iteration of a partial function

A loop whose state is replaced by `next` until there is none comes to an end exactly if it does not
come back to a state, provided that it has finitely many states.
-/

namespace Orbit

variable {α : Type*} (next : α → Option α)

/-- The state after `n` rounds, if there are so many. -/
def orbit : ℕ → α → Option α
  | 0, a => some a
  | n + 1, a => (next a).bind (orbit n)

def Ends (a : α) : Prop := ∃ n, orbit next n a = none

/-- Some state is met again. -/
def Revisits (a : α) : Prop := ∃ i j x, i < j ∧ orbit next i a = some x ∧ orbit next j a = some x

variable {next} {a b x : α} {n k : ℕ}

lemma orbit_add : orbit next (n + k) a = (orbit next n a).bind (orbit next k) := by
  induction n generalizing a with
  | zero => rw [Nat.zero_add, orbit, Option.bind_some]
  | succ n ih =>
    rw [Nat.add_right_comm, orbit, orbit]
    cases next a with
    | none => rfl
    | some b => exact ih

lemma orbit_mono (h : orbit next n a = none) (hk : n ≤ k) : orbit next k a = none := by
  obtain ⟨d, rfl⟩ := Nat.exists_eq_add_of_le hk
  rw [orbit_add, h, Option.bind_none]

lemma ends_iff_of_next (h : next a = some b) : Ends next a ↔ Ends next b := by
  constructor
  · rintro ⟨n, hn⟩
    have := orbit_mono hn (Nat.le_succ n)
    rw [orbit, h] at this
    exact ⟨n, this⟩
  · rintro ⟨n, hn⟩
    exact ⟨n + 1, by rw [orbit, h]; exact hn⟩

lemma Ends.of_none (h : next a = none) : Ends next a := ⟨1, by rw [orbit, h, Option.bind_none]⟩

/-- An iteration that ends does so in a state without a successor. -/
lemma ends_iff_exists_last : Ends next a ↔ ∃ n x, orbit next n a = some x ∧ next x = none := by
  constructor
  · rintro ⟨n, hn⟩
    induction n generalizing a with
    | zero => cases hn
    | succ n ih =>
      cases hnext : next a with
      | none => exact ⟨0, a, rfl, hnext⟩
      | some b =>
        rw [orbit, hnext] at hn
        obtain ⟨k, x, hk, hx⟩ := ih hn
        exact ⟨k + 1, x, by rw [orbit, hnext]; exact hk, hx⟩
  · rintro ⟨n, x, hn, hx⟩
    exact ⟨n + 1, by rw [orbit_add, hn, Option.bind_some, orbit, hx, Option.bind_none]⟩

/-- The last state is the same however it is reached. -/
lemma last_unique {y : α} (hn : orbit next n a = some x) (hx : next x = none)
    (hk : orbit next k a = some y) (hy : next y = none) : x = y := by
  have hle : ∀ {n k x y}, orbit next n a = some x → next x = none → orbit next k a = some y →
      n ≤ k → x = y := by
    intro n k x y hn hx hk hle
    obtain ⟨d, rfl⟩ := Nat.exists_eq_add_of_le hle
    rw [orbit_add, hn, Option.bind_some] at hk
    cases d with
    | zero => exact Option.some.inj hk
    | succ d => simp [orbit, hx] at hk
  rcases Nat.le_total n k with h | h
  · exact hle hn hx hk h
  · exact (hle hk hy hn h).symm

/-- From a state that is met again after `k` rounds it is met again forever. -/
lemma orbit_mul (h : orbit next k x = some x) (n : ℕ) : orbit next (k * n) x = some x := by
  induction n with
  | zero => rfl
  | succ n ih => rw [Nat.mul_succ, orbit_add, ih, Option.bind_some, h]

lemma Revisits.not_ends (h : Revisits next a) : ¬Ends next a := by
  obtain ⟨i, j, x, hij, hi, hj⟩ := h
  rintro ⟨n, hn⟩
  obtain ⟨k, rfl⟩ := Nat.exists_eq_add_of_lt hij
  rw [Nat.add_assoc, orbit_add, hi, Option.bind_some] at hj
  have hforever : orbit next (i + (k + 1) * n) a = some x := by
    rw [orbit_add, hi, Option.bind_some, orbit_mul hj]
  have hle : n ≤ i + (k + 1) * n :=
    (Nat.le_mul_of_pos_left n (Nat.succ_pos k)).trans (Nat.le_add_left _ _)
  rw [orbit_mono hn hle] at hforever
  cases hforever

/-- Among finitely many states the iteration ends exactly if no state is met again. -/
theorem ends_iff_not_revisits {s : Set α} (hs : s.Finite) (hnext : ∀ a ∈ s, ∀ b ∈ next a, b ∈ s)
    (ha : a ∈ s) : Ends next a ↔ ¬Revisits next a := by
  refine ⟨fun hends hrevisits => hrevisits.not_ends hends, fun hnot => ?_⟩
  by_contra hends
  have hstates : ∀ n, ∃ x ∈ s, orbit next n a = some x := by
    intro n
    induction n with
    | zero => exact ⟨a, ha, rfl⟩
    | succ n ih =>
      obtain ⟨x, hx, hn⟩ := ih
      obtain ⟨y, hy⟩ := Option.ne_none_iff_exists'.mp fun h => hends ⟨n + 1, h⟩
      refine ⟨y, hnext x hx y ?_, hy⟩
      rw [orbit_add, hn, Option.bind_some] at hy
      cases hnx : next x with
      | none => simp [orbit, hnx] at hy
      | some z => simpa [orbit, hnx] using hy
  choose f hf horbit using hstates
  have := hs.to_subtype
  obtain ⟨i, j, hne, heq⟩ :=
    Finite.exists_ne_map_eq_of_infinite fun n => (⟨f n, hf n⟩ : s)
  have heq' : f i = f j := congrArg Subtype.val heq
  rcases lt_or_gt_of_ne hne with hlt | hlt
  · exact hnot ⟨i, j, f i, hlt, horbit i, heq' ▸ horbit j⟩
  · exact hnot ⟨j, i, f j, hlt, horbit j, heq' ▸ horbit i⟩

/-- An iteration that goes up to a bound ends. -/
lemma ends_of_lt {next : ℕ → Option ℕ} (bound : ℕ) {a : ℕ}
    (h : ∀ a, ∀ b ∈ next a, a < b ∧ a < bound) : Ends next a := by
  induction hd : bound - a using Nat.strong_induction_on generalizing a with
  | _ d ih =>
    cases hnext : next a with
    | none => exact .of_none hnext
    | some b =>
      obtain ⟨hlt, hbound⟩ := h a b hnext
      exact (ends_iff_of_next hnext).mpr (ih (bound - b) (by omega) rfl)

end Orbit
