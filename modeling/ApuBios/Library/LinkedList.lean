import Mathlib.Tactic

/-!
# Singly linked lists

`Linked addr next a xs b` says that the links `next`, followed from `a`, run through the nodes
`xs` in order and then arrive at `b`. With `b` the null link this is a whole list; other values
of `b` give segments of one.
-/

namespace LinkedList

variable {B : Type*} (addr : B → ℕ) (next : ℕ → ℕ)

def Linked (a : ℕ) : List B → ℕ → Prop
  | [], b => a = b
  | x :: xs, b => a = addr x ∧ Linked (next (addr x)) xs b

variable {addr next} {next' : ℕ → ℕ} {a b c : ℕ} {x : B} {xs ys : List B}

@[simp] lemma linked_nil : Linked addr next a [] b ↔ a = b := Iff.rfl

@[simp] lemma linked_cons :
    Linked addr next a (x :: xs) b ↔ a = addr x ∧ Linked addr next (next (addr x)) xs b := Iff.rfl

lemma linked_append :
    Linked addr next a (xs ++ ys) b ↔
      ∃ c, Linked addr next a xs c ∧ Linked addr next c ys b := by
  induction xs generalizing a with
  | nil => simp
  | cons x xs ih => simp [ih, and_assoc]

/-- The last node of a list holds the last link. -/
lemma linked_concat :
    Linked addr next a (xs ++ [x]) b ↔ Linked addr next a xs (addr x) ∧ next (addr x) = b := by
  simp [linked_append]

/-- Only the links of the nodes matter. -/
lemma Linked.congr (h : Linked addr next a xs b) (hnext : ∀ x ∈ xs, next' (addr x) = next (addr x)) :
    Linked addr next' a xs b := by
  induction xs generalizing a with
  | nil => exact h
  | cons x xs ih =>
    refine ⟨h.1, ?_⟩
    rw [hnext x (by simp)]
    exact ih h.2 fun y hy => hnext y (by simp [hy])

/-- The last node is linked to `c` instead. -/
lemma Linked.redirect (h : Linked addr next a (xs ++ [x]) b)
    (hnext : ∀ y ∈ xs, next' (addr y) = next (addr y)) (hx : next' (addr x) = c) :
    Linked addr next' a (xs ++ [x]) c :=
  linked_concat.mpr ⟨(linked_concat.mp h).1.congr hnext, hx⟩

/-- A node is taken out of a list by linking the node before it to the next one. -/
lemma Linked.remove {w : B} (h : Linked addr next a (xs ++ w :: x :: ys) b)
    (hxs : ∀ y ∈ xs, next' (addr y) = next (addr y))
    (hys : ∀ y ∈ ys, next' (addr y) = next (addr y))
    (hw : next' (addr w) = next (addr x)) : Linked addr next' a (xs ++ w :: ys) b := by
  obtain ⟨c, hl, rfl, -, hr⟩ := linked_append.mp h
  refine linked_append.mpr ⟨addr w, hl.congr hxs, rfl, ?_⟩
  rw [hw]
  exact Linked.congr hr hys

/-- The first link of a list is the address of its first node, or where the list ends. -/
lemma Linked.start_eq (h : Linked addr next a xs b) : a = (xs.map addr).headD b := by
  cases xs with
  | nil => exact h
  | cons x xs => exact h.1

/-! ### Lists of addresses -/

/-- The links lead from `head` through the nodes of `l` to a null pointer. -/
def IsChain (next : ℕ → ℕ) (head : ℕ) (l : List ℕ) : Prop := Linked id next head l 0 ∧ 0 ∉ l

namespace IsChain

variable {next next' : ℕ → ℕ} {head x w r : ℕ} {l l' pre post : List ℕ}

lemma nil_iff : IsChain next head [] ↔ head = 0 := by simp [IsChain]

lemma cons_iff : IsChain next head (x :: l) ↔ head = x ∧ x ≠ 0 ∧ IsChain next (next x) l := by
  simp only [IsChain, linked_cons, id_eq, List.mem_cons, not_or]
  constructor
  · rintro ⟨⟨rfl, hl⟩, hne, h0⟩
    exact ⟨rfl, Ne.symm hne, hl, h0⟩
  · rintro ⟨rfl, hne, hl, h0⟩
    exact ⟨⟨rfl, hl⟩, Ne.symm hne, h0⟩

lemma congr (h : IsChain next head l) (hnext : ∀ a ∈ l, next' a = next a) : IsChain next' head l :=
  ⟨h.1.congr hnext, h.2⟩

/-- A list is determined by its first link. -/
lemma unique (h : IsChain next head l) (h' : IsChain next head l') : l = l' := by
  induction l generalizing head l' with
  | nil =>
    cases l' with
    | nil => rfl
    | cons y l' => exact absurd (nil_iff.mp h) ((cons_iff.mp h').1 ▸ (cons_iff.mp h').2.1)
  | cons x l ih =>
    obtain ⟨rfl, hne, hl⟩ := cons_iff.mp h
    cases l' with
    | nil => exact absurd (nil_iff.mp h') hne
    | cons y l' =>
      obtain ⟨rfl, -, hl'⟩ := cons_iff.mp h'
      rw [ih hl hl']

lemma eq_nil_iff (h : IsChain next head l) : l = [] ↔ head = 0 := by
  constructor
  · rintro rfl
    exact nil_iff.mp h
  · rintro rfl
    exact h.unique (nil_iff.mpr rfl)

/-- The rest of a list from any of its nodes. -/
lemma of_append (h : IsChain next head (pre ++ x :: post)) : IsChain next x (x :: post) := by
  obtain ⟨⟨c, -, hc⟩, h0⟩ := And.imp_left linked_append.mp h
  exact ⟨⟨rfl, hc.2⟩, fun hmem => h0 (List.mem_append_right _ hmem)⟩

/-- A node occurs once, as the list would not end otherwise. -/
lemma nodup (h : IsChain next head l) : l.Nodup := by
  induction l generalizing head with
  | nil => exact List.nodup_nil
  | cons x l ih =>
    obtain ⟨rfl, -, hl⟩ := cons_iff.mp h
    refine List.nodup_cons.mpr ⟨?_, ih hl⟩
    intro hmem
    obtain ⟨pre, post, rfl⟩ := List.append_of_mem hmem
    have hlen := congrArg List.length (h.unique hl.of_append)
    simp only [List.length_cons, List.length_append] at hlen
    omega

/-- A node behind another one is taken out by linking that one to the next. -/
lemma remove (h : IsChain next head (pre ++ w :: x :: post))
    (hw : next' w = next x) (hother : ∀ a ∈ pre ++ post, next' a = next a) :
    IsChain next' head (pre ++ w :: post) := by
  refine ⟨h.1.remove ?_ ?_ hw, ?_⟩
  · exact fun y hy => hother y (List.mem_append_left _ hy)
  · exact fun y hy => hother y (List.mem_append_right _ hy)
  · have h0 := h.2
    simp only [List.mem_append, List.mem_cons] at h0 ⊢
    tauto

/-- A node is put behind the last one. -/
lemma concat (h : IsChain next head (l ++ [w])) (hw : next' w = r) (hr : next' r = 0) (hr0 : r ≠ 0)
    (hother : ∀ a ∈ l, next' a = next a) : IsChain next' head (l ++ [w] ++ [r]) := by
  refine ⟨linked_append.mpr ⟨r, h.1.redirect hother hw, rfl, hr⟩, ?_⟩
  have h0 := h.2
  simp only [List.mem_append, List.mem_singleton] at h0 ⊢
  tauto

end IsChain

end LinkedList
