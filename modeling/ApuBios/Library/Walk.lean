import Mathlib.Tactic

/-!
# Walking over items that carry their length

A reader that finds an item at a position, and in it the length that leads to the next one, visits
exactly the items that were laid out one after the other.
-/

namespace Walk

variable {len len' : ℕ → ℕ} {ns ns' : List ℕ} {p q k n limit : ℕ}

/-- The positions that are visited below the limit, and the one behind them. -/
def walk (len : ℕ → ℕ) (limit : ℕ) : ℕ → ℕ → List ℕ × ℕ
  | 0, p => ([], p)
  | k + 1, p =>
    if p < limit then
      let r := walk len limit k (p + len p)
      (p :: r.1, r.2)
    else
      ([], p)

/-- The positions of items of the lengths `ns` from `p` on. -/
def starts : ℕ → List ℕ → List ℕ
  | _, [] => []
  | p, n :: ns => p :: starts (p + n) ns

/-- From `p` on, there are items of the lengths `ns`. -/
def Segmented (len : ℕ → ℕ) : ℕ → List ℕ → Prop
  | _, [] => True
  | p, n :: ns => 0 < n ∧ len p = n ∧ Segmented len (p + n) ns

@[simp] lemma starts_nil : starts p [] = [] := rfl

@[simp] lemma starts_cons : starts p (n :: ns) = p :: starts (p + n) ns := rfl

@[simp] lemma length_starts : (starts p ns).length = ns.length := by
  induction ns generalizing p with
  | nil => rfl
  | cons n ns ih => rw [starts_cons, List.length_cons, List.length_cons, ih]

/-- Each item lies between the first position and the last one. -/
lemma mem_starts (h : q ∈ starts p ns) : p ≤ q ∧ ∃ n ∈ ns, q + n ≤ p + ns.sum := by
  induction ns generalizing p with
  | nil => cases h
  | cons n ns ih =>
    rw [List.sum_cons]
    rcases List.mem_cons.mp h with rfl | h
    · exact ⟨le_rfl, n, List.mem_cons_self, by omega⟩
    · obtain ⟨hle, n', hn', hsum⟩ := ih h
      exact ⟨by omega, n', List.mem_cons_of_mem _ hn', by omega⟩

/-- A length that is not a multiple does not matter for the items before it. -/
lemma dvd_starts_getElem (hp : k ∣ p) {i : ℕ} (hi : i < (starts p ns).length)
    (hns : ∀ n ∈ ns.take i, k ∣ n) : k ∣ (starts p ns)[i] := by
  induction ns generalizing p i with
  | nil => cases hi
  | cons n ns ih =>
    cases i with
    | zero => exact hp
    | succ i =>
      rw [List.take_succ_cons, List.forall_mem_cons] at hns
      exact ih (Nat.dvd_add hp hns.1) (Nat.lt_of_succ_lt_succ hi) hns.2

lemma segmented_append : Segmented len p (ns ++ ns') ↔
    Segmented len p ns ∧ Segmented len (p + ns.sum) ns' := by
  induction ns generalizing p with
  | nil => simp [Segmented]
  | cons n ns ih =>
    rw [List.cons_append, Segmented, Segmented, ih, List.sum_cons, Nat.add_assoc]
    tauto

/-- The lengths have to be known at the positions of the items only. -/
lemma Segmented.congr (h : Segmented len p ns) (hlen : ∀ q ∈ starts p ns, len' q = len q) :
    Segmented len' p ns := by
  induction ns generalizing p with
  | nil => trivial
  | cons n ns ih =>
    rw [starts_cons, List.forall_mem_cons] at hlen
    exact ⟨h.1, hlen.1.trans h.2.1, ih h.2.2 hlen.2⟩

/-- A walk visits exactly the items and ends behind the last one. -/
theorem Segmented.walk_eq (h : Segmented len p ns) (hk : ns.length ≤ k) :
    walk len (p + ns.sum) k p = (starts p ns, p + ns.sum) := by
  induction ns generalizing p k with
  | nil => cases k <;> simp [walk]
  | cons n ns ih =>
    obtain ⟨hpos, hlen, h⟩ := h
    obtain ⟨k, rfl⟩ : ∃ k', k = k' + 1 := ⟨k - 1, by rw [List.length_cons] at hk; omega⟩
    rw [List.length_cons] at hk
    rw [List.sum_cons, walk, if_pos (by omega), hlen, ← Nat.add_assoc, ih h (by omega)]
    rfl

/-- The number of items is at most the number of bytes. -/
lemma Segmented.length_le (h : Segmented len p ns) : ns.length ≤ ns.sum := by
  induction ns generalizing p with
  | nil => rfl
  | cons n ns ih =>
    rw [List.length_cons, List.sum_cons]
    have := ih h.2.2
    have := h.1
    omega

end Walk
