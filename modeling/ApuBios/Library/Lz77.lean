import Mathlib.Tactic

/-!
# Copies of what has been written

Lempel-Ziv compression writes symbols, or copies of symbols from some distance back. What is copied
may still be growing: a copy of more symbols than the distance repeats them.
-/

namespace Lz77

variable {α : Type*}

/-- Copies `n` symbols from `d` symbols back, one after the other. -/
def copy (d : ℕ) : ℕ → List α → List α
  | 0, out => out
  | n + 1, out => copy d n (out ++ (out[out.length - d]?).toList)

section

variable {d n m : ℕ} {out : List α}

@[simp] lemma copy_zero : copy d 0 out = out := rfl

lemma copy_succ (hpos : 0 < d) (hle : d ≤ out.length) :
    copy d (n + 1) out = copy d n (out ++ [out.get ⟨out.length - d, by omega⟩]) := by
  rw [copy, List.getElem?_eq_getElem (by omega), Option.toList_some, List.get_eq_getElem]

lemma length_copy (hpos : 0 < d) (hle : d ≤ out.length) :
    (copy d n out).length = out.length + n := by
  induction n generalizing out with
  | zero => rfl
  | succ n ih =>
    rw [copy_succ hpos hle, ih (by simp only [List.length_append]; omega)]
    simp only [List.length_append, List.length_singleton]
    omega

/-- What has been written stays. -/
lemma take_length_copy (hpos : 0 < d) (hle : d ≤ out.length) :
    (copy d n out).take out.length = out := by
  induction n generalizing out with
  | zero => exact List.take_length
  | succ n ih =>
    rw [copy_succ hpos hle]
    set b := out.get ⟨out.length - d, by omega⟩
    have hrest : (copy d n (out ++ [b])).take (out ++ [b]).length = out ++ [b] :=
      ih (by simp only [List.length_append]; omega)
    have htake := congrArg (List.take out.length) hrest
    rwa [List.take_take, List.length_append, List.length_singleton, min_eq_left (by omega),
      List.take_append_length] at htake

/-- A copy out of a list that repeats itself writes the list on. -/
lemma copy_take {data : List α} (hpos : 0 < d) (hle : d ≤ m) (hlen : m + n ≤ data.length)
    (hrepeats : ∀ i < n, data[m + i]? = data[m + i - d]?) :
    copy d n (data.take m) = data.take (m + n) := by
  induction n generalizing m with
  | zero => rfl
  | succ n ih =>
    have hm : (data.take m).length = m := by rw [List.length_take, min_eq_left (by omega)]
    have hnext : data.take m ++ [(data.take m).get ⟨(data.take m).length - d, by omega⟩] =
        data.take (m + 1) := by
      rw [List.take_add_one]
      congr 1
      have h0 := hrepeats 0 (Nat.succ_pos n)
      rw [Nat.add_zero] at h0
      rw [h0, List.get_eq_getElem, List.getElem_take, List.getElem?_eq_getElem (by omega),
        Option.toList_some]
      simp only [hm]
    rw [copy_succ hpos (by omega), hnext, ih (by omega) (by omega), Nat.add_right_comm, Nat.add_assoc]
    intro i hi
    have hi' := hrepeats (i + 1) (Nat.succ_lt_succ hi)
    rwa [Nat.add_comm i 1, ← Nat.add_assoc] at hi'

end

end Lz77
