import Mathlib.Tactic

/-!
# Repeated selection of the largest element

`largest key last l` looks through `l` for the element that follows `last` when elements are taken
in descending order of their keys and, if keys are equal, in the order of `l`. Started without an
element and continued with the element found, it takes every element of a list exactly once
(`exists_selects`).
-/

namespace Selection

variable {α κ : Type*}

structure State (α : Type*) where
  last : Option α
  result : Option α
  seenLast : Bool

section Defs

variable [DecidableEq α] [LinearOrder κ] (key : α → κ)

/-- Elements that were taken before are passed over, as is `last` itself. -/
def visit (s : State α) (x : α) : State α :=
  if s.last = some x then
    { s with seenLast := true }
  else if s.last.any fun y => decide (key y < key x) || decide (key y = key x) && !s.seenLast then
    s
  else if s.result.all fun r => decide (key r < key x) then
    { s with result := some x }
  else
    s

def largest (last : Option α) (l : List α) : Option α :=
  (l.foldl (visit key) ⟨last, none, false⟩).result

/-- Starting after `last`, the selection takes the elements of the list in order. -/
def Selects (l : List α) (last : Option α) : List α → Prop
  | [] => largest key last l = none
  | x :: xs => largest key last l = some x ∧ Selects l (some x) xs

/-- The first `n` elements that are taken after `last`. -/
def takeAll (l : List α) (last : Option α) : (n : ℕ) → List α
  | 0 => []
  | n + 1 =>
    match largest key last l with
    | none => []
    | some x => x :: takeAll l (some x) n

end Defs

/-- `x` is taken before `y`, where `pos` is the order for equal keys. -/
def Before [LinearOrder κ] (key : α → κ) (pos : α → ℕ) (x y : α) : Prop :=
  key y < key x ∨ key x = key y ∧ pos x < pos y

def After [LinearOrder κ] (key : α → κ) (pos : α → ℕ) (last : Option α) (x : α) : Prop :=
  ∀ y ∈ last, Before key pos y x

section Order

variable [LinearOrder κ] {key : α → κ} {pos : α → ℕ} {x y z : α}

lemma Before.irrefl : ¬Before key pos x x := by
  rintro (h | ⟨-, h⟩)
  · exact lt_irrefl _ h
  · exact lt_irrefl _ h

lemma Before.trans (hxy : Before key pos x y) (hyz : Before key pos y z) : Before key pos x z := by
  rcases hxy with hxy | ⟨hxy, hpos⟩
  · rcases hyz with hyz | ⟨hyz, -⟩
    · exact Or.inl (hyz.trans hxy)
    · exact Or.inl (hyz ▸ hxy)
  · rcases hyz with hyz | ⟨hyz, hpos'⟩
    · exact Or.inl (hxy ▸ hyz)
    · exact Or.inr ⟨hxy.trans hyz, hpos.trans hpos'⟩

lemma Before.key_le (h : Before key pos x y) : key y ≤ key x := by
  rcases h with h | ⟨h, -⟩
  · exact h.le
  · exact h.ge

/-- The element found among `l` follows `last`, and the others come later. -/
def Found (key : α → κ) (pos : α → ℕ) (last : Option α) (l : List α) : Option α → Prop
  | none => ∀ x ∈ l, ¬After key pos last x
  | some r => r ∈ l ∧ After key pos last r ∧ ∀ x ∈ l, After key pos last x → x = r ∨ Before key pos r x

/-- An element that does not follow `last` does not matter. -/
lemma Found.skip {last result : Option α} {l : List α} (h : Found key pos last l result)
    (hx : ¬After key pos last x) : Found key pos last (l ++ [x]) result := by
  cases result with
  | none =>
    intro y hy
    rcases List.mem_append.mp hy with hy | hy
    · exact h y hy
    · exact List.mem_singleton.mp hy ▸ hx
  | some r =>
    refine ⟨List.mem_append_left _ h.1, h.2.1, fun y hy hafter => ?_⟩
    rcases List.mem_append.mp hy with hy | hy
    · exact h.2.2 y hy hafter
    · exact absurd (List.mem_singleton.mp hy ▸ hafter) hx

/-- An element with a larger key replaces the one found so far. -/
lemma Found.replace {last result : Option α} {l : List α} (h : Found key pos last l result)
    (hx : After key pos last x) (hlarger : ∀ r ∈ result, key r < key x) :
    Found key pos last (l ++ [x]) (some x) := by
  refine ⟨List.mem_concat_self, hx, fun y hy hafter => ?_⟩
  rcases List.mem_append.mp hy with hy | hy
  · cases result with
    | none => exact absurd hafter (h y hy)
    | some r =>
      have hless : key r < key x := hlarger r rfl
      rcases h.2.2 y hy hafter with rfl | hbefore
      · exact Or.inr (Or.inl hless)
      · exact Or.inr (Or.inl (hbefore.key_le.trans_lt hless))
  · exact Or.inl (List.mem_singleton.mp hy)

/-- An element with a key that is no larger comes later than the one found so far. -/
lemma Found.keep {last : Option α} {l : List α} {r : α} (h : Found key pos last l (some r))
    (hle : key x ≤ key r) (hpos : ∀ y ∈ l, pos y < pos x) :
    Found key pos last (l ++ [x]) (some r) := by
  refine ⟨List.mem_append_left _ h.1, h.2.1, fun y hy hafter => ?_⟩
  rcases List.mem_append.mp hy with hy | hy
  · exact h.2.2 y hy hafter
  · rw [List.mem_singleton.mp hy]
    rcases hle.lt_or_eq with hlt | heq
    · exact Or.inr (Or.inl hlt)
    · exact Or.inr (Or.inr ⟨heq.symm, hpos r h.1⟩)

end Order

variable [DecidableEq α] [LinearOrder κ] (key : α → κ) {pos : α → ℕ} {last : Option α}

/-- After a part of the list, `last` is known to be in it or not, and the first element that
follows is found. -/
lemma foldl_visit (pre rest : List α) (hpos : (pre ++ rest).Pairwise fun x y => pos x < pos y)
    (hlast : ∀ y ∈ last, y ∈ pre ++ rest) :
    let s := pre.foldl (visit key) ⟨last, none, false⟩
    s.last = last ∧ (s.seenLast = true ↔ ∃ y ∈ last, y ∈ pre) ∧
      Found key pos last pre s.result := by
  induction pre using List.reverseRecOn generalizing rest with
  | nil => simp [Found]
  | append_singleton pre x ih =>
    rw [List.append_assoc, List.singleton_append] at hpos hlast
    obtain ⟨hl, hseen, hfound⟩ := ih (x :: rest) hpos hlast
    rw [List.pairwise_append, List.pairwise_cons] at hpos
    have hbelow : ∀ y ∈ pre, pos y < pos x := fun y hy => hpos.2.2 y hy x (by simp)
    rw [List.foldl_append, List.foldl_cons, List.foldl_nil]
    generalize pre.foldl (visit key) ⟨last, none, false⟩ = s at hl hseen hfound
    unfold visit
    by_cases hself : s.last = some x
    · rw [if_pos hself]
      rw [hl] at hself
      refine ⟨hl, by simp [hself], hfound.skip fun hafter => ?_⟩
      exact Before.irrefl (hafter x hself)
    rw [if_neg hself]
    have hseen' : s.seenLast = true ↔ ∃ y ∈ last, y ∈ pre ++ [x] := by
      rw [hseen]
      refine ⟨fun ⟨y, hy, hmem⟩ => ⟨y, hy, by simp [hmem]⟩, fun ⟨y, hy, hmem⟩ => ⟨y, hy, ?_⟩⟩
      refine (List.mem_append.mp hmem).resolve_right fun hyx => hself ?_
      rw [hl, ← List.mem_singleton.mp hyx]
      exact hy
    -- what `last` says about `x`
    have hafter : After key pos last x ↔ ¬(s.last.any fun y =>
        decide (key y < key x) || decide (key y = key x) && !s.seenLast) = true := by
      rw [hl]
      cases last with
      | none => simp [After]
      | some y =>
        have hne : y ≠ x := fun h => hself (by rw [hl, h])
        have hmem : y ∈ pre ↔ pos y < pos x := by
          refine ⟨hbelow y, fun hlt => ?_⟩
          refine (List.mem_append.mp (hlast y rfl)).resolve_right fun hy => ?_
          have := hpos.2.1.1 y ((List.mem_cons.mp hy).resolve_left hne)
          omega
        have hseenIff : s.seenLast = true ↔ pos y < pos x := by
          rw [hseen, ← hmem]
          simp
        simp only [After, Option.mem_some_iff, forall_eq', Before, Option.any_some, Bool.or_eq_true,
          decide_eq_true_eq, Bool.and_eq_true, Bool.not_eq_true', ← Bool.not_eq_true, hseenIff,
          not_or, not_and, not_lt]
        constructor
        · rintro (h | ⟨h, hlt⟩)
          · exact ⟨h.le, fun heq => absurd heq h.ne'⟩
          · exact ⟨h.ge, fun _ => by omega⟩
        · rintro ⟨hle, heq⟩
          rcases hle.lt_or_eq with h | h
          · exact Or.inl h
          · exact Or.inr ⟨h.symm, by have := heq h.symm; omega⟩
    by_cases hskip : (s.last.any fun y =>
        decide (key y < key x) || decide (key y = key x) && !s.seenLast) = true
    · rw [if_pos hskip]
      exact ⟨hl, hseen', hfound.skip fun h => hafter.mp h hskip⟩
    · rw [if_neg hskip]
      by_cases hlarger : (s.result.all fun r => decide (key r < key x)) = true
      · rw [if_pos hlarger]
        refine ⟨hl, hseen', hfound.replace (hafter.mpr hskip) fun r hr => ?_⟩
        rw [Option.mem_def] at hr
        simpa [hr] using hlarger
      · rw [if_neg hlarger]
        refine ⟨hl, hseen', ?_⟩
        cases hresult : s.result with
        | none => simp [hresult] at hlarger
        | some r =>
          rw [hresult] at hfound
          exact hfound.keep (by simpa [hresult] using hlarger) hbelow

lemma largest_found {l : List α} (hpos : l.Pairwise fun x y => pos x < pos y)
    (hlast : ∀ y ∈ last, y ∈ l) : Found key pos last l (largest key last l) := by
  exact (foldl_visit key l [] (by simpa using hpos) (by simpa using hlast)).2.2

/-- The elements after `last` are taken one by one. -/
private lemma exists_selects_after {l : List α} (hpos : l.Pairwise fun x y => pos x < pos y)
    (after : List α) (hnodup : after.Nodup)
    (hmem : ∀ x, x ∈ after ↔ x ∈ l ∧ After key pos last x) (hlast : ∀ y ∈ last, y ∈ l) :
    ∃ order, order.Perm after ∧ order.Pairwise (Before key pos) ∧ Selects key l last order := by
  induction hn : after.length generalizing after last with
  | zero =>
    obtain rfl := List.length_eq_zero_iff.mp hn
    refine ⟨[], .refl _, .nil, ?_⟩
    have hfound := largest_found key hpos hlast
    rw [Selects]
    cases hres : largest key last l with
    | none => rfl
    | some r =>
      rw [hres] at hfound
      exact absurd ((hmem r).mpr ⟨hfound.1, hfound.2.1⟩) (by simp)
  | succ n ih =>
    have hfound := largest_found key hpos hlast
    cases hres : largest key last l with
    | none =>
      rw [hres] at hfound
      obtain ⟨x, hx⟩ := List.exists_mem_of_length_pos (show 0 < after.length by omega)
      exact absurd ((hmem x).mp hx).2 (hfound x ((hmem x).mp hx).1)
    | some r =>
      rw [hres] at hfound
      obtain ⟨hr, hafter, hrest⟩ := hfound
      have hrmem := (hmem r).mpr ⟨hr, hafter⟩
      have hmem' : ∀ x, x ∈ after.erase r ↔ x ∈ l ∧ After key pos (some r) x := by
        intro x
        rw [hnodup.mem_erase_iff, hmem]
        constructor
        · rintro ⟨hne, hx, hxa⟩
          exact ⟨hx, fun y hy => Option.mem_some_iff.mp hy ▸ (hrest x hx hxa).resolve_left hne⟩
        · rintro ⟨hx, hxa⟩
          have hbefore := hxa r rfl
          refine ⟨fun h => Before.irrefl (h ▸ hbefore), hx, fun y hy => ?_⟩
          exact (hafter y hy).trans hbefore
      obtain ⟨order, hperm, hsorted, hselects⟩ := ih (after.erase r) (hnodup.erase r) hmem'
        (by simpa using hr) (by simp [List.length_erase_of_mem hrmem, hn])
      have hperm' : (r :: order).Perm after :=
        (hperm.cons r).trans (List.perm_cons_erase hrmem).symm
      refine ⟨r :: order, hperm', List.pairwise_cons.mpr ⟨fun x hx => ?_, hsorted⟩, hres, hselects⟩
      obtain ⟨hne, hx'⟩ := hnodup.mem_erase_iff.mp (hperm.mem_iff.mp hx)
      exact (hrest x ((hmem x).mp hx').1 ((hmem x).mp hx').2).resolve_left hne

/-- Every element is taken exactly once, and elements with equal keys in their order. -/
theorem exists_selects_before {l : List α} (hpos : l.Pairwise fun x y => pos x < pos y) :
    ∃ order, order.Perm l ∧ order.Pairwise (Before key pos) ∧ Selects key l none order := by
  have hnodup : l.Nodup := hpos.imp fun h heq => h.ne (congrArg pos heq)
  exact exists_selects_after key hpos l hnodup (by simp [After]) (by simp)

/-- The elements of a list have an order of their own. -/
lemma pairwise_idxOf {l : List α} (h : l.Nodup) : l.Pairwise fun x y => l.idxOf x < l.idxOf y := by
  refine List.pairwise_iff_getElem.mpr fun i j hi hj hij => ?_
  simpa only [h.idxOf_getElem] using hij

private lemma visit_congr {key' : α → κ} {s : State α} {x : α} (hx : key' x = key x)
    (hlast : ∀ y ∈ s.last, key' y = key y) (hresult : ∀ y ∈ s.result, key' y = key y) :
    visit key' s x = visit key s x := by
  obtain ⟨last, result, seen⟩ := s
  cases last <;> cases result <;> simp_all [visit]

private lemma visit_mem {s : State α} {x y : α} (hy : y ∈ (visit key s x).result) :
    y ∈ s.result ∨ y = x := by
  unfold visit at hy
  split_ifs at hy
  · exact Or.inl hy
  · exact Or.inl hy
  · exact Or.inr (Option.mem_some_iff.mp hy).symm
  · exact Or.inl hy

private lemma visit_last {s : State α} {x : α} : (visit key s x).last = s.last := by
  unfold visit
  split_ifs <;> rfl

private lemma foldl_visit_congr {key' : α → κ} {l : List α} {s : State α}
    (hl : ∀ x ∈ l, key' x = key x) (hlast : ∀ y ∈ s.last, key' y = key y)
    (hresult : ∀ y ∈ s.result, key' y = key y) :
    l.foldl (visit key') s = l.foldl (visit key) s := by
  induction l generalizing s with
  | nil => rfl
  | cons x l ih =>
    rw [List.foldl_cons, List.foldl_cons, visit_congr key (hl x (by simp)) hlast hresult]
    refine ih (fun y hy => hl y (by simp [hy])) (by rwa [visit_last]) fun y hy => ?_
    rcases visit_mem key hy with hy | rfl
    · exact hresult y hy
    · exact hl y (by simp)

/-- Only the keys of the elements matter. -/
lemma largest_congr {key' : α → κ} {l : List α} (hl : ∀ x ∈ l, key' x = key x)
    (hlast : ∀ y ∈ last, key' y = key y) : largest key' last l = largest key last l := by
  rw [largest, largest, foldl_visit_congr key hl hlast (by simp)]

lemma largest_mem {l : List α} {x : α} (h : largest key last l = some x) : x ∈ l := by
  have hmem : ∀ (l : List α) (s : State α), ∀ y ∈ (l.foldl (visit key) s).result,
      y ∈ s.result ∨ y ∈ l := by
    intro l
    induction l with
    | nil => exact fun s y hy => Or.inl hy
    | cons z l ih =>
      intro s y hy
      rcases ih (visit key s z) y hy with hy | hy
      · rcases visit_mem key hy with hy | rfl
        · exact Or.inl hy
        · exact Or.inr (by simp)
      · exact Or.inr (by simp [hy])
  exact (hmem l _ x h).resolve_left (by simp)

lemma takeAll_congr {key' : α → κ} {l : List α} {n : ℕ} (hl : ∀ x ∈ l, key' x = key x)
    (hlast : ∀ y ∈ last, y ∈ l) : takeAll key' l last n = takeAll key l last n := by
  induction n generalizing last with
  | zero => rfl
  | succ n ih =>
    rw [takeAll, takeAll, largest_congr key hl fun y hy => hl y (hlast y hy)]
    cases hres : largest key last l with
    | none => rfl
    | some x => exact congrArg (x :: ·) (ih (by simpa using largest_mem key hres))

lemma mem_of_mem_takeAll {l : List α} {n : ℕ} {x : α} (h : x ∈ takeAll key l last n) : x ∈ l := by
  induction n generalizing last with
  | zero => simp [takeAll] at h
  | succ n ih =>
    rw [takeAll] at h
    cases hres : largest key last l with
    | none => simp [hres] at h
    | some y =>
      rw [hres] at h
      rcases List.mem_cons.mp h with rfl | h
      · exact largest_mem key hres
      · exact ih h

lemma Selects.takeAll_eq {l order : List α} {n : ℕ} (h : Selects key l last order)
    (hn : order.length ≤ n) : takeAll key l last n = order := by
  induction order generalizing last n with
  | nil =>
    cases n with
    | zero => rfl
    | succ n => rw [takeAll, show largest key last l = none from h]
  | cons x xs ih =>
    obtain ⟨k, rfl⟩ := Nat.exists_eq_succ_of_ne_zero (Nat.ne_zero_of_lt hn)
    rw [takeAll, h.1]
    exact congrArg (x :: ·) (ih h.2 (by simpa using hn))

/-- After a part of the order, the next element is taken. -/
lemma Selects.largest_eq {l pre rest : List α} (h : Selects key l last (pre ++ rest)) :
    largest key (pre.getLast?.or last) l = rest.head? := by
  induction pre generalizing last with
  | nil =>
    cases rest with
    | nil => exact h
    | cons x rest => exact h.1
  | cons x pre ih =>
    rw [← ih h.2]
    cases pre with
    | nil => rfl
    | cons y pre => simp [List.getLast?_cons]

/-- Every element of the list is taken exactly once, in descending order of the keys. -/
theorem exists_selects {l : List α} (h : l.Nodup) :
    ∃ order, order.Perm l ∧ (order.Pairwise fun x y => key y ≤ key x) ∧
      Selects key l none order := by
  obtain ⟨order, hperm, hsorted, hselects⟩ := exists_selects_before key (pairwise_idxOf h)
  exact ⟨order, hperm, hsorted.imp Before.key_le, hselects⟩

end Selection
