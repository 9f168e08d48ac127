import Mathlib.Tactic

/-!
# Going on from the last result

A caller gets the elements of a list that meet a condition one by one: the list is searched from its
beginning each time, up to the last result, and the next element behind it is the result. The caller
sees all of them once unless one is in the list twice; then it never comes to the end.
-/

namespace Rescan

variable {α : Type*} [DecidableEq α] (p : α → Bool) (w : List α)

/-- The first result, or the one behind the last. -/
def next : Option α → Option α
  | none => w.find? p
  | some a => ((w.dropWhile (· ≠ a)).tail).find? p

/-- All results behind the last, no value if there are not fewer than `n`. -/
def results : (n : ℕ) → Option α → Option (List α)
  | 0, _ => none
  | n + 1, last =>
    match next p w last with
    | none => some []
    | some a => (results n (some a)).map (a :: ·)

variable {p w} {a b : α} {pre post l : List α} {n : ℕ}

/-- The list up to the first place of an element. -/
lemma dropWhile_ne_append (ha : a ∉ pre) : (pre ++ a :: post).dropWhile (· ≠ a) = a :: post := by
  induction pre with
  | nil => simp
  | cons b pre ih =>
    rw [List.mem_cons, not_or] at ha
    rw [List.cons_append, List.dropWhile_cons_of_pos (by simpa using Ne.symm ha.1)]
    exact ih ha.2

/-- Only the elements that meet the condition matter. -/
lemma next_some (ha : p a = true) (hsplit : w.filter p = pre ++ a :: post) (hpre : a ∉ pre) :
    next p w (some a) = post.head? := by
  have hmem : a ∈ w := by
    have : a ∈ w.filter p := by simp [hsplit]
    exact List.mem_of_mem_filter this
  obtain ⟨before, behind, rfl, hbefore⟩ := List.eq_append_cons_of_mem hmem
  have hfilter : before.filter p ++ a :: behind.filter p = pre ++ a :: post := by
    rw [← hsplit, List.filter_append, List.filter_cons_of_pos ha]
  have hdrop := congrArg (List.dropWhile (· ≠ a)) hfilter
  rw [dropWhile_ne_append (fun h => hbefore (List.mem_of_mem_filter h)), dropWhile_ne_append hpre]
    at hdrop
  rw [next, dropWhile_ne_append hbefore, List.tail_cons, ← List.head?_filter, (List.cons.inj hdrop).2]

lemma next_none : next p w none = (w.filter p).head? := List.head?_filter.symm

/-- Without a second place of a result, all results behind the last one are seen. -/
lemma results_some (hnodup : (w.filter p).Nodup) (hsplit : w.filter p = pre ++ a :: post)
    (hn : post.length < n) : results p w n (some a) = some post := by
  induction post generalizing pre a n with
  | nil =>
    obtain ⟨n, rfl⟩ := Nat.exists_eq_succ_of_ne_zero hn.ne'
    have ha : a ∈ w.filter p := by simp [hsplit]
    have hpre : a ∉ pre := by
      rw [hsplit, List.nodup_append'] at hnodup
      exact fun h => hnodup.2.2 h (by simp)
    rw [results, next_some (List.mem_filter.mp ha).2 hsplit hpre]
    rfl
  | cons b post ih =>
    obtain ⟨n, rfl⟩ := Nat.exists_eq_succ_of_ne_zero (Nat.ne_zero_of_lt hn)
    have ha : a ∈ w.filter p := by simp [hsplit]
    have hpre : a ∉ pre := by
      have hnodup' := hnodup
      rw [hsplit, List.nodup_append'] at hnodup'
      exact fun h => hnodup'.2.2 h (by simp)
    have hrest : results p w n (some b) = some post :=
      ih (show w.filter p = (pre ++ [a]) ++ b :: post by rw [hsplit]; simp) (by simpa using hn)
    rw [results, next_some (List.mem_filter.mp ha).2 hsplit hpre]
    change Option.map (b :: ·) (results p w n (some b)) = _
    rw [hrest]
    rfl

lemma results_none (hnodup : (w.filter p).Nodup) (hn : (w.filter p).length < n) :
    results p w n none = some (w.filter p) := by
  obtain ⟨n, rfl⟩ := Nat.exists_eq_succ_of_ne_zero (Nat.ne_zero_of_lt hn)
  rw [results, next_none]
  cases hfilter : w.filter p with
  | nil => rfl
  | cons b post =>
    rw [hfilter] at hn
    have hrest : results p w n (some b) = some post :=
      results_some hnodup (show w.filter p = [] ++ b :: post from hfilter) (by simpa using hn)
    change Option.map (b :: ·) (results p w n (some b)) = _
    rw [hrest]
    rfl

/-- A list with an element twice, up to its second place. -/
lemma exists_repeat (h : ¬l.Nodup) : ∃ pre b post, l = pre ++ b :: post ∧ b ∈ pre := by
  induction l with
  | nil => exact absurd List.nodup_nil h
  | cons x l ih =>
    by_cases hx : x ∈ l
    · obtain ⟨pre, post, rfl⟩ := List.append_of_mem hx
      exact ⟨x :: pre, x, post, rfl, List.mem_cons_self⟩
    · obtain ⟨pre, b, post, rfl, hb⟩ := ih fun hl => h (List.nodup_cons.mpr ⟨hx, hl⟩)
      exact ⟨x :: pre, b, post, rfl, List.mem_cons_of_mem _ hb⟩

/-- In front of the second place of a result, the next one is there again. -/
lemma next_mem_of_repeat (hsplit : w.filter p = pre ++ b :: post) (hb : b ∈ pre) (ha : a ∈ pre) :
    ∃ c ∈ pre, next p w (some a) = some c := by
  have hp : p a = true := (List.mem_filter.mp (show a ∈ w.filter p by simp [hsplit, ha])).2
  obtain ⟨front, back, rfl, hfront⟩ := List.eq_append_cons_of_mem ha
  have hsplit' : w.filter p = front ++ a :: (back ++ b :: post) := by rw [hsplit]; simp
  rw [next_some hp hsplit' hfront]
  cases back with
  | nil => exact ⟨b, hb, rfl⟩
  | cons c back => exact ⟨c, by simp, rfl⟩

/-- With a second place, the end is never reached. -/
lemma results_eq_none_of_repeat (hsplit : w.filter p = pre ++ b :: post) (hb : b ∈ pre) (n : ℕ) :
    results p w n none = none := by
  have hrun : ∀ n, ∀ a ∈ pre, results p w n (some a) = none := by
    intro n
    induction n with
    | zero => exact fun _ _ => rfl
    | succ n ih =>
      intro a ha
      obtain ⟨c, hc, hnext⟩ := next_mem_of_repeat hsplit hb ha
      rw [results, hnext]
      change Option.map (c :: ·) (results p w n (some c)) = none
      rw [ih c hc]
      rfl
  cases n with
  | zero => rfl
  | succ n =>
    obtain ⟨c, front, rfl⟩ := List.exists_cons_of_ne_nil (List.ne_nil_of_mem hb)
    rw [results, next_none, hsplit]
    change Option.map (c :: ·) (results p w n (some c)) = none
    rw [hrun n c (by simp)]
    rfl

/-- The caller comes to the end, having seen every element that meets the condition once, if and
only if none of these is in the list twice. -/
theorem results_complete_iff :
    (∃ n found, results p w n none = some found ∧ found.Nodup ∧
      ∀ a, a ∈ found ↔ a ∈ w ∧ p a = true) ↔ (w.filter p).Nodup := by
  constructor
  · rintro ⟨n, found, heq, -⟩
    by_contra hrepeat
    obtain ⟨pre, b, post, hsplit, hb⟩ := exists_repeat hrepeat
    rw [results_eq_none_of_repeat hsplit hb] at heq
    cases heq
  · intro hnodup
    exact ⟨_, _, results_none hnodup (Nat.lt_succ_self _), hnodup, fun a => List.mem_filter⟩

end Rescan
