import Mathlib.Tactic

/-!
# Finite maps as sorted lists of tagged intervals

A list of inclusive intervals with a value each denotes a partial function on addresses.
Among the lists that denote a given function, the *canonical* one is sorted, disjoint and has
no two touching intervals of equal value; it is unique (`Canonical.ext`).
-/

namespace IntervalMap

/-- A type whose elements are inclusive intervals carrying a value. -/
class Spanned (E : Type*) (α : outParam (Type*)) where
  lo : E → ℕ
  hi : E → ℕ
  val : E → α
  ext : ∀ e f : E, lo e = lo f → hi e = hi f → val e = val f → e = f

open Spanned

variable {E α : Type*} [Spanned E α]

/-- The value at an address, taken from the first interval that contains it. -/
def lookup (es : List E) (a : ℕ) : Option α :=
  match es with
  | [] => none
  | e :: es => if lo e ≤ a ∧ a ≤ hi e then some (val e) else lookup es a

/-- Nonempty intervals, strictly sorted and pairwise disjoint. -/
structure Separated (es : List E) : Prop where
  nonempty : ∀ e ∈ es, lo e ≤ hi e
  sorted : es.Pairwise fun e f => hi e < lo f

/-- `e` ends before `f` begins, and they do not touch with equal values. -/
def Before (e f : E) : Prop := hi e < lo f ∧ (hi e + 1 = lo f → val e ≠ val f)

/-- Separated, and no two touching intervals have equal values. -/
structure Canonical (es : List E) : Prop where
  nonempty : ∀ e ∈ es, lo e ≤ hi e
  sorted : es.Pairwise Before

@[simp] lemma lookup_nil (a : ℕ) : lookup ([] : List E) a = none := rfl

lemma lookup_cons (e : E) (es : List E) (a : ℕ) :
    lookup (e :: es) a = if lo e ≤ a ∧ a ≤ hi e then some (val e) else lookup es a := rfl

lemma lookup_append (es fs : List E) (a : ℕ) :
    lookup (es ++ fs) a = (lookup es a).or (lookup fs a) := by
  induction es with
  | nil => rfl
  | cons e es ih =>
    rw [List.cons_append, lookup_cons, lookup_cons, ih]
    split_ifs <;> rfl

lemma lookup_eq_none {es : List E} {a : ℕ} (h : ∀ e ∈ es, a < lo e ∨ hi e < a) :
    lookup es a = none := by
  induction es with
  | nil => rfl
  | cons e es ih =>
    have he := h e (by simp)
    rw [lookup_cons, if_neg (by omega)]
    exact ih fun f hf => h f (by simp [hf])

lemma exists_of_lookup {es : List E} {a : ℕ} {v : α} (h : lookup es a = some v) :
    ∃ e ∈ es, lo e ≤ a ∧ a ≤ hi e ∧ val e = v := by
  induction es with
  | nil => simp at h
  | cons e es ih =>
    rw [lookup_cons] at h
    split_ifs at h with hin
    · exact ⟨e, by simp, hin.1, hin.2, Option.some.inj h⟩
    · obtain ⟨f, hf, hspec⟩ := ih h
      exact ⟨f, by simp [hf], hspec⟩

namespace Separated

variable {e : E} {es : List E}

protected lemma nil : Separated ([] : List E) := ⟨by simp, .nil⟩

lemma cons_iff :
    Separated (e :: es) ↔ lo e ≤ hi e ∧ (∀ f ∈ es, hi e < lo f) ∧ Separated es := by
  constructor
  · rintro ⟨hne, hs⟩
    rw [List.pairwise_cons] at hs
    exact ⟨hne e (by simp), hs.1, ⟨fun f hf => hne f (by simp [hf]), hs.2⟩⟩
  · rintro ⟨he, hlt, hne, hs⟩
    exact ⟨by simpa using ⟨he, hne⟩, List.pairwise_cons.mpr ⟨hlt, hs⟩⟩

/-- Addresses below every interval are unmapped. -/
lemma lookup_none {a : ℕ} (h : ∀ f ∈ es, a < lo f) : lookup es a = none :=
  lookup_eq_none fun f hf => Or.inl (h f hf)

/-- In a separated list every interval contributes its value. -/
lemma lookup_mem (hs : Separated es) (he : e ∈ es) {a : ℕ} (hlo : lo e ≤ a) (hhi : a ≤ hi e) :
    lookup es a = some (val e) := by
  induction es with
  | nil => simp at he
  | cons f es ih =>
    obtain ⟨-, hlt, hs'⟩ := cons_iff.mp hs
    rw [lookup_cons]
    rcases List.mem_cons.mp he with rfl | he
    · rw [if_pos ⟨hlo, hhi⟩]
    · have := hlt e he
      rw [if_neg (by omega)]
      exact ih hs' he

/-- An interval on which nothing is mapped lies beside every element. -/
lemma disjoint_of_lookup (hs : Separated es) {b c : ℕ} (hbc : b ≤ c)
    (hnone : ∀ a, b ≤ a → a ≤ c → lookup es a = none) :
    ∀ f ∈ es, hi f < b ∨ c < lo f := by
  intro f hf
  by_contra hover
  have hne := hs.nonempty f hf
  have hmax := hnone (max b (lo f)) (by omega) (by omega)
  rw [hs.lookup_mem hf (by omega) (by omega)] at hmax
  cases hmax

/-- Every list splits at an address, unless one of its intervals lies on both sides. -/
lemma exists_split (hs : Separated es) (b : ℕ) :
    (∃ l r, es = l ++ r ∧ (∀ f ∈ l, hi f < b) ∧ ∀ f ∈ r, b ≤ lo f) ∨
      ∃ l e r, es = l ++ e :: r ∧ (∀ f ∈ l, hi f < b) ∧ (lo e < b ∧ b ≤ hi e) ∧
        ∀ f ∈ r, b ≤ lo f := by
  induction es with
  | nil => exact Or.inl ⟨[], [], rfl, by simp, by simp⟩
  | cons e es ih =>
    obtain ⟨hle, hlt, hs'⟩ := cons_iff.mp hs
    by_cases hlo : b ≤ lo e
    · refine Or.inl ⟨[], e :: es, rfl, by simp, fun f hf => ?_⟩
      rcases List.mem_cons.mp hf with rfl | hf
      · exact hlo
      · have := hlt f hf
        omega
    by_cases hhi : b ≤ hi e
    · exact Or.inr ⟨[], e, es, rfl, by simp, ⟨by omega, hhi⟩, fun f hf => by
        have := hlt f hf
        omega⟩
    · have hcons : ∀ l : List E, (∀ f ∈ l, hi f < b) → ∀ f ∈ e :: l, hi f < b := by
        intro l hl f hf
        rcases List.mem_cons.mp hf with rfl | hf
        · omega
        · exact hl f hf
      rcases ih hs' with ⟨l, r, rfl, hl, hr⟩ | ⟨l, f, r, rfl, hl, hf, hr⟩
      · exact Or.inl ⟨e :: l, r, rfl, hcons l hl, hr⟩
      · exact Or.inr ⟨e :: l, f, r, rfl, hcons l hl, hf, hr⟩

end Separated

namespace Canonical

variable {e : E} {es fs : List E}

protected lemma nil : Canonical ([] : List E) := ⟨by simp, .nil⟩

lemma cons_iff :
    Canonical (e :: es) ↔ lo e ≤ hi e ∧ (∀ f ∈ es, Before e f) ∧ Canonical es := by
  constructor
  · rintro ⟨hne, hs⟩
    rw [List.pairwise_cons] at hs
    exact ⟨hne e (by simp), hs.1, ⟨fun f hf => hne f (by simp [hf]), hs.2⟩⟩
  · rintro ⟨he, hlt, hne, hs⟩
    exact ⟨by simpa using ⟨he, hne⟩, List.pairwise_cons.mpr ⟨hlt, hs⟩⟩

lemma separated (h : Canonical es) : Separated es :=
  ⟨h.nonempty, h.sorted.imp fun hb => hb.1⟩

/-- The value of an interval does not go on behind it. -/
lemma lookup_succ_ne (h : Canonical es) (he : e ∈ es) : lookup es (hi e + 1) ≠ some (val e) := by
  induction es with
  | nil => cases he
  | cons f es ih =>
    obtain ⟨hle, hlt, h'⟩ := cons_iff.mp h
    rcases List.mem_cons.mp he with rfl | he
    · rw [lookup_cons, if_neg (by omega)]
      intro hnext
      obtain ⟨g, hg, hglo, -, hgval⟩ := exists_of_lookup hnext
      obtain ⟨hend, htouch⟩ := hlt g hg
      exact htouch (by omega) hgval.symm
    · have hend := (hlt e he).1
      have hle' := h'.nonempty e he
      rw [lookup_cons, if_neg (by omega)]
      exact ih h' he

/-- An interval on which the map is constant lies in one interval of the list. -/
lemma exists_mem_of_const (h : Canonical es) {b c : ℕ} {v : α} (hbc : b ≤ c)
    (hconst : ∀ a, b ≤ a → a ≤ c → lookup es a = some v) :
    ∃ f ∈ es, lo f ≤ b ∧ c ≤ hi f ∧ val f = v := by
  obtain ⟨f, hf, hlo, hhi, rfl⟩ := exists_of_lookup (hconst b le_rfl hbc)
  refine ⟨f, hf, hlo, ?_, rfl⟩
  by_contra hshort
  exact h.lookup_succ_ne hf (hconst (hi f + 1) (by omega) (by omega))

/-- If two canonical lists denote the same map, the first interval of one cannot begin before
that of the other. -/
private lemma lo_le_of_lookup_eq {f : E} (h : Canonical (e :: es)) (h' : Canonical (f :: fs))
    (heq : lookup (e :: es) = lookup (f :: fs)) : lo f ≤ lo e := by
  obtain ⟨he, -, -⟩ := cons_iff.mp h
  obtain ⟨hf, hlt, -⟩ := cons_iff.mp h'
  by_contra hlo
  have hnone : lookup (f :: fs) (lo e) = none := by
    refine Separated.lookup_none fun g hg => ?_
    rcases List.mem_cons.mp hg with rfl | hg
    · omega
    · have := (hlt g hg).1
      omega
  rw [← heq, lookup_cons, if_pos ⟨le_rfl, he⟩] at hnone
  cases hnone

/-- The first intervals of two canonical lists for one map end at the same address: a shorter
one would be followed by a touching interval of its own value. -/
private lemma hi_le_of_lookup_eq {f : E} (h : Canonical (e :: es)) (hlo : lo e = lo f)
    (hval : val e = val f) (heq : lookup (e :: es) = lookup (f :: fs)) : hi f ≤ hi e := by
  obtain ⟨he, hlt, -⟩ := cons_iff.mp h
  by_contra hhi
  have hsome : lookup (e :: es) (hi e + 1) = some (val e) := by
    rw [heq, lookup_cons, if_pos (by omega), hval]
  rw [lookup_cons, if_neg (by omega)] at hsome
  obtain ⟨g, hg, hglo, -, hgval⟩ := exists_of_lookup hsome
  have hbefore := hlt g hg
  exact hbefore.2 (by have := hbefore.1; omega) hgval.symm

/-- A canonical list is determined by the map it denotes. -/
theorem ext (h : Canonical es) (h' : Canonical fs) (heq : lookup es = lookup fs) : es = fs := by
  induction es generalizing fs with
  | nil =>
    cases fs with
    | nil => rfl
    | cons f fs =>
      have hf := (cons_iff.mp h').1
      have hnone := congrFun heq (lo f)
      simp [lookup_cons, hf] at hnone
  | cons e es ih =>
    cases fs with
    | nil =>
      have he := (cons_iff.mp h).1
      have hnone := congrFun heq (lo e)
      simp [lookup_cons, he] at hnone
    | cons f fs =>
      obtain ⟨he, hlt, htail⟩ := cons_iff.mp h
      obtain ⟨hf, hlt', htail'⟩ := cons_iff.mp h'
      have hlo : lo e = lo f :=
        le_antisymm (lo_le_of_lookup_eq h' h heq.symm) (lo_le_of_lookup_eq h h' heq)
      have hval : val e = val f := by
        have hat := congrFun heq (lo e)
        rw [lookup_cons, if_pos ⟨le_rfl, he⟩, lookup_cons, if_pos (by omega)] at hat
        exact Option.some.inj hat
      have hhi : hi e = hi f :=
        le_antisymm (hi_le_of_lookup_eq h' hlo.symm hval.symm heq.symm)
          (hi_le_of_lookup_eq h hlo hval heq)
      obtain rfl := Spanned.ext e f hlo hhi hval
      congr 1
      refine ih htail htail' (funext fun a => ?_)
      by_cases ha : lo e ≤ a ∧ a ≤ hi e
      · rw [Separated.lookup_none fun g hg => by have := (hlt g hg).1; omega,
          Separated.lookup_none fun g hg => by have := (hlt' g hg).1; omega]
      · have hat := congrFun heq a
        rwa [lookup_cons, if_neg ha, lookup_cons, if_neg ha] at hat

end Canonical

end IntervalMap
