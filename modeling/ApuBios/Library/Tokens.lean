import Mathlib.Data.List.TakeWhile
import Mathlib.Tactic

/-!
# Tokens between separators

The maximal runs of a list that have no separator in them, in order, and the list taken apart into
the runs and what stands between them.
-/

namespace Tokens

variable {α : Type*} {sep : α → Bool} {l ds w : List α} {d : α}

/-- The parts between the separators that are not empty. -/
def tokens (sep : α → Bool) (l : List α) : List (List α) := (l.splitOnP sep).filter (! ·.isEmpty)

/-- The list is taken apart: separators, a run, the separator that ends it, and so on. -/
inductive Splits (sep : α → Bool) : List α → List (List α) → Prop
  | none (ds : List α) : (∀ d ∈ ds, sep d) → Splits sep ds []
  | last (ds w : List α) : (∀ d ∈ ds, sep d) → w ≠ [] → (∀ c ∈ w, sep c = false) → Splits sep (ds ++ w) [w]
  | cons (ds w : List α) (d : α) (l : List α) (ws : List (List α)) : (∀ d ∈ ds, sep d) → w ≠ [] → (∀ c ∈ w, sep c = false) → sep d →
      Splits sep l ws → Splits sep (ds ++ (w ++ d :: l)) (w :: ws)

/-! ### The parts -/

lemma tokens_nil : tokens sep ([] : List α) = [] := by
  rw [tokens, List.splitOnP_nil]
  rfl

lemma tokens_cons (hd : sep d) : tokens sep (d :: l) = tokens sep l := by
  rw [tokens, List.splitOnP_cons_eq_if_modifyHead, if_pos hd]
  rfl

/-- Separators at the front do not count. -/
lemma tokens_append (hds : ∀ d ∈ ds, sep d) : tokens sep (ds ++ l) = tokens sep l := by
  induction ds with
  | nil => rfl
  | cons d ds ih =>
    rw [List.forall_mem_cons] at hds
    rw [List.cons_append, tokens_cons hds.1, ih hds.2]

lemma tokens_run (hne : w ≠ []) (hw : ∀ c ∈ w, sep c = false) : tokens sep w = [w] := by
  rw [tokens, List.splitOnP_eq_singleton hw]
  simp [hne]

/-- A run at the front, and the separator that ends it. -/
lemma tokens_run_append (hne : w ≠ []) (hw : ∀ c ∈ w, sep c = false) (hd : sep d) :
    tokens sep (w ++ d :: l) = w :: tokens sep l := by
  rw [tokens, List.splitOnP_append_cons_of_forall_mem hw d hd]
  simp [hne, tokens]

/-- The tokens are what the list is taken apart into. -/
lemma splits_tokens (sep : α → Bool) (l : List α) : Splits sep l (tokens sep l) := by
  induction hn : l.length using Nat.strong_induction_on generalizing l with
  | _ n ih =>
    have hds : ∀ d ∈ l.takeWhile sep, sep d := fun d => List.mem_takeWhile_imp
    have hl := List.takeWhile_append_dropWhile (p := sep) (l := l)
    rw [← hl, tokens_append hds]
    cases hrest : l.dropWhile sep with
    | nil =>
      rw [tokens_nil, List.append_nil]
      exact .none _ hds
    | cons c r =>
      have hc : sep c = false := by
        have := List.head_dropWhile_not sep (l := l) (by rw [hrest]; exact List.cons_ne_nil c r)
        simpa only [hrest, List.head_cons] using this
      have hrun : ∀ b ∈ (c :: r).takeWhile (! sep ·), sep b = false := fun b hb => by
        simpa using List.mem_takeWhile_imp hb
      have hne : (c :: r).takeWhile (! sep ·) ≠ [] := by simp [hc]
      have hr := List.takeWhile_append_dropWhile (p := (! sep ·)) (l := c :: r)
      rw [← hr]
      cases hend : (c :: r).dropWhile (! sep ·) with
      | nil =>
        rw [List.append_nil, tokens_run hne hrun]
        exact .last _ _ hds hne hrun
      | cons d l' =>
        have hd : sep d = true := by
          have := List.head_dropWhile_not (! sep ·) (l := c :: r)
            (by rw [hend]; exact List.cons_ne_nil d l')
          simpa [hend] using this
        have hlt : l'.length < n := by
          have hlen := congrArg List.length hr
          have hlen' := congrArg List.length hl
          rw [hend, List.length_append, List.length_cons] at hlen
          rw [hrest, List.length_append] at hlen'
          omega
        rw [tokens_run_append hne hrun hd]
        exact .cons _ _ _ _ _ hds hne hrun hd (ih _ hlt l' rfl)

end Tokens
