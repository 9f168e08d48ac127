import Mathlib.Tactic

/-!
# Collecting the results of partial computations

The results of a list of computations one after the other, if each has one.
-/

namespace Collect

variable {α β : Type*}

def collect : List (Option (List β)) → Option (List β)
  | [] => some []
  | x :: xs => x.bind fun part => (collect xs).map (part ++ ·)

variable {f : α → Option (List β)} {l : List α} {out : List β} {y : β}

/-- What is collected are the elements of the results. -/
lemma mem_collect_map (h : collect (l.map f) = some out) :
    y ∈ out ↔ ∃ a ∈ l, ∃ part, f a = some part ∧ y ∈ part := by
  induction l generalizing out with
  | nil =>
    obtain rfl := Option.some.inj h
    simp
  | cons a l ih =>
    obtain ⟨part, hpart, hrest⟩ := Option.bind_eq_some_iff.mp h
    obtain ⟨rest, hcollect, rfl⟩ := Option.map_eq_some_iff.mp hrest
    rw [List.mem_append, ih hcollect, List.exists_mem_cons_iff]
    apply or_congr _ Iff.rfl
    constructor
    · exact fun hy => ⟨part, hpart, hy⟩
    · rintro ⟨part', hpart', hy⟩
      rw [hpart] at hpart'
      obtain rfl := Option.some.inj hpart'
      exact hy

/-- Each computation has a result. -/
lemma exists_of_collect_map (h : collect (l.map f) = some out) {a : α} (ha : a ∈ l) :
    ∃ part, f a = some part := by
  induction l generalizing out with
  | nil => cases ha
  | cons b l ih =>
    obtain ⟨part, hpart, hrest⟩ := Option.bind_eq_some_iff.mp h
    obtain ⟨rest, hcollect, -⟩ := Option.map_eq_some_iff.mp hrest
    rcases List.mem_cons.mp ha with rfl | ha
    · exact ⟨part, hpart⟩
    · exact ih hcollect ha

lemma collect_map_isSome (h : ∀ a ∈ l, (f a).isSome) : ∃ out, collect (l.map f) = some out := by
  induction l with
  | nil => exact ⟨[], rfl⟩
  | cons a l ih =>
    rw [List.forall_mem_cons] at h
    obtain ⟨part, hpart⟩ := Option.isSome_iff_exists.mp h.1
    obtain ⟨rest, hrest⟩ := ih h.2
    exact ⟨part ++ rest, by rw [List.map_cons, collect, hpart, Option.bind_some, hrest]; rfl⟩

end Collect
