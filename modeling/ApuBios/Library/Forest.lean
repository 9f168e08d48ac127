import Mathlib

/-!
# Numbering the nodes of a forest

The nodes are numbered as they are met, a node before its children and these before its siblings.
With `lo a` the number of a node and `hi a` the last number below it, the intervals from `lo a` to
`hi a` are nested as the nodes are.
-/

/-- A list of trees, given by the first tree's root, its children and the other trees. -/
inductive Forest (α : Type*) where
  | nil
  | node (a : α) (children sibling : Forest α)

namespace Forest

variable {α : Type*}

def labels : Forest α → List α
  | nil => []
  | node a children sibling => a :: (children.labels ++ sibling.labels)

def size : Forest α → ℕ
  | nil => 0
  | node _ children sibling => children.size + sibling.size + 1

/-- The node `a` is below `b`. -/
def Below (a b : α) : Forest α → Prop
  | nil => False
  | node x children sibling =>
    x = b ∧ a ∈ children.labels ∨ children.Below a b ∨ sibling.Below a b

/-- The nodes are numbered from `n + 1`. -/
def Numbered (lo hi : α → ℕ) : ℕ → Forest α → Prop
  | _, nil => True
  | n, node a children sibling =>
    lo a = n + 1 ∧ hi a = n + 1 + children.size ∧ children.Numbered lo hi (n + 1) ∧
      sibling.Numbered lo hi (n + 1 + children.size)

variable {lo hi lo' hi' : α → ℕ} {f : Forest α} {a b : α} {n : ℕ}

lemma mem_labels_of_below (h : f.Below a b) : a ∈ f.labels ∧ b ∈ f.labels := by
  induction f with
  | nil => exact h.elim
  | node x children sibling ihc ihs =>
    simp only [labels, List.mem_cons, List.mem_append]
    rcases h with ⟨rfl, ha⟩ | h | h
    · exact ⟨.inr (.inl ha), .inl rfl⟩
    · exact ⟨.inr (.inl (ihc h).1), .inr (.inl (ihc h).2)⟩
    · exact ⟨.inr (.inr (ihs h).1), .inr (.inr (ihs h).2)⟩

namespace Numbered

lemma congr (h : f.Numbered lo hi n) (hlo : ∀ a ∈ f.labels, lo' a = lo a)
    (hhi : ∀ a ∈ f.labels, hi' a = hi a) : f.Numbered lo' hi' n := by
  induction f generalizing n with
  | nil => trivial
  | node x children sibling ihc ihs =>
    simp only [labels, List.forall_mem_cons, List.forall_mem_append] at hlo hhi
    obtain ⟨hx, hxhi, hc, hs⟩ := h
    exact ⟨hlo.1.trans hx, hhi.1.trans hxhi, ihc hc hlo.2.1 hhi.2.1, ihs hs hlo.2.2 hhi.2.2⟩

lemma bounds (h : f.Numbered lo hi n) (ha : a ∈ f.labels) :
    n < lo a ∧ lo a ≤ hi a ∧ hi a ≤ n + f.size := by
  induction f generalizing n with
  | nil => simp [labels] at ha
  | node x children sibling ihc ihs =>
    obtain ⟨hx, hxhi, hc, hs⟩ := h
    simp only [size]
    rcases List.mem_cons.mp ha with rfl | ha
    · omega
    · rcases List.mem_append.mp ha with ha | ha
      · have := ihc hc ha
        omega
      · have := ihs hs ha
        omega

/-- No two nodes have the same number. -/
lemma lo_inj (h : f.Numbered lo hi n) (ha : a ∈ f.labels) (hb : b ∈ f.labels) (heq : lo a = lo b) :
    a = b := by
  induction f generalizing n with
  | nil => simp [labels] at ha
  | node x children sibling ihc ihs =>
    obtain ⟨hx, -, hc, hs⟩ := h
    simp only [labels, List.mem_cons, List.mem_append] at ha hb
    rcases ha with rfl | ha | ha <;> rcases hb with rfl | hb | hb
    · rfl
    · have := hc.bounds hb
      omega
    · have := hs.bounds hb
      omega
    · have := hc.bounds ha
      omega
    · exact ihc hc ha hb
    · have := hc.bounds ha
      have := hs.bounds hb
      omega
    · have := hs.bounds ha
      omega
    · have := hs.bounds ha
      have := hc.bounds hb
      omega
    · exact ihs hs ha hb

/-- What is below a node has its numbers after that of the node. -/
lemma of_below (h : f.Numbered lo hi n) (hab : f.Below a b) : lo b < lo a ∧ hi a ≤ hi b := by
  induction f generalizing n with
  | nil => exact hab.elim
  | node x children sibling ihc ihs =>
    obtain ⟨hx, hxhi, hc, hs⟩ := h
    rcases hab with ⟨rfl, ha⟩ | hab | hab
    · have := hc.bounds ha
      omega
    · exact ihc hc hab
    · exact ihs hs hab

/-- Two nodes that are not below one another share no number. -/
lemma disjoint (h : f.Numbered lo hi n) (ha : a ∈ f.labels) (hb : b ∈ f.labels) (hne : a ≠ b)
    (hab : ¬f.Below a b) (hba : ¬f.Below b a) : hi a < lo b ∨ hi b < lo a := by
  induction f generalizing n with
  | nil => simp [labels] at ha
  | node x children sibling ihc ihs =>
    obtain ⟨hx, hxhi, hc, hs⟩ := h
    simp only [Below, not_or, not_and] at hab hba
    simp only [labels, List.mem_cons, List.mem_append] at ha hb
    rcases ha with rfl | ha | ha <;> rcases hb with rfl | hb | hb
    · exact absurd rfl hne
    · exact absurd hb (hba.1 rfl)
    · have := hs.bounds hb
      omega
    · exact absurd ha (hab.1 rfl)
    · exact ihc hc ha hb hab.2.1 hba.2.1
    · have := hc.bounds ha
      have := hs.bounds hb
      omega
    · have := hs.bounds ha
      omega
    · have := hs.bounds ha
      have := hc.bounds hb
      omega
    · exact ihs hs ha hb hab.2.2 hba.2.2

/-- The last number is in use. -/
lemma exists_last (h : f.Numbered lo hi n) (hf : f.size ≠ 0) : ∃ a ∈ f.labels, lo a = n + f.size := by
  induction f generalizing n with
  | nil => exact absurd rfl hf
  | node x children sibling ihc ihs =>
    obtain ⟨hx, -, hc, hs⟩ := h
    simp only [labels, List.mem_cons, List.mem_append, size]
    by_cases hsib : sibling.size = 0
    · by_cases hchild : children.size = 0
      · exact ⟨x, .inl rfl, by omega⟩
      · obtain ⟨a, ha, hlo⟩ := ihc hc hchild
        exact ⟨a, .inr (.inl ha), by omega⟩
    · obtain ⟨a, ha, hlo⟩ := ihs hs hsib
      exact ⟨a, .inr (.inr ha), by omega⟩

/-- The end of a node's interval is the number of the node itself or of one below it. -/
lemma exists_hi (h : f.Numbered lo hi n) (ha : a ∈ f.labels) :
    ∃ b, (b = a ∨ f.Below b a) ∧ lo b = hi a := by
  induction f generalizing n with
  | nil => simp [labels] at ha
  | node x children sibling ihc ihs =>
    obtain ⟨hx, hxhi, hc, hs⟩ := h
    simp only [labels, List.mem_cons, List.mem_append] at ha
    simp only [Below]
    rcases ha with rfl | ha | ha
    · by_cases hchild : children.size = 0
      · exact ⟨a, .inl rfl, by omega⟩
      · obtain ⟨b, hb, hlo⟩ := hc.exists_last hchild
        exact ⟨b, .inr (.inl ⟨rfl, hb⟩), by omega⟩
    · obtain ⟨b, hb, hlo⟩ := ihc hc ha
      exact ⟨b, hb.imp_right fun h => .inr (.inl h), hlo⟩
    · obtain ⟨b, hb, hlo⟩ := ihs hs ha
      exact ⟨b, hb.imp_right fun h => .inr (.inr h), hlo⟩

/-- The end of a node's interval is the greatest of the numbers of the node and of those below. -/
theorem isGreatest_hi (h : f.Numbered lo hi n) (ha : a ∈ f.labels) :
    IsGreatest {m | ∃ b, (b = a ∨ f.Below b a) ∧ lo b = m} (hi a) := by
  refine ⟨h.exists_hi ha, ?_⟩
  rintro m ⟨b, rfl | hb, rfl⟩
  · exact (h.bounds ha).2.1
  · exact (h.bounds (mem_labels_of_below hb).1).2.1.trans (h.of_below hb).2

/-- Intervals are nested as the nodes are. -/
theorem icc_subset_iff (h : f.Numbered lo hi n) (ha : a ∈ f.labels) (hb : b ∈ f.labels)
    (hne : a ≠ b) : Set.Icc (lo a) (hi a) ⊆ Set.Icc (lo b) (hi b) ↔ f.Below a b := by
  have hbounds := h.bounds ha
  constructor
  · intro hsub
    have hmem : lo b ≤ lo a ∧ lo a ≤ hi b := hsub ⟨le_rfl, hbounds.2.1⟩
    by_contra hab
    by_cases hba : f.Below b a
    · exact absurd (h.of_below hba).1 (by omega)
    · rcases h.disjoint ha hb hne hab hba with hlt | hlt
      · omega
      · omega
  · intro hab
    have := h.of_below hab
    exact Set.Icc_subset_Icc (by omega) (by omega)

/-- Otherwise they are disjoint. -/
theorem disjoint_icc (h : f.Numbered lo hi n) (ha : a ∈ f.labels) (hb : b ∈ f.labels) (hne : a ≠ b)
    (hab : ¬f.Below a b) (hba : ¬f.Below b a) :
    Disjoint (Set.Icc (lo a) (hi a)) (Set.Icc (lo b) (hi b)) := by
  rw [Set.disjoint_left]
  rintro m ⟨hma, hma'⟩ ⟨hmb, hmb'⟩
  rcases h.disjoint ha hb hne hab hba with hlt | hlt
  · omega
  · omega

end Numbered

end Forest
