import Mathlib.Data.Nat.Bits
import Mathlib.Tactic

/-!
# Alternating bits

Lists of bits each of which differs from the one before it, as sequence numbers of one bit do.
-/

/-- The bits alternate, and the first one is `t`. -/
def Alternates (t : Bool) : List Bool → Prop
  | [] => True
  | b :: bs => b = t ∧ Alternates (!t) bs

namespace Alternates

variable {t b : Bool} {bs cs : List Bool}

instance decidable (t : Bool) (bs : List Bool) : Decidable (Alternates t bs) :=
  match bs with
  | [] => .isTrue trivial
  | b :: bs =>
    have := decidable (!t) bs
    inferInstanceAs (Decidable (b = t ∧ Alternates (!t) bs))

@[simp] lemma nil : Alternates t [] := trivial

@[simp] lemma cons_iff : Alternates t (b :: bs) ↔ b = t ∧ Alternates (!t) bs := Iff.rfl

lemma append_iff :
    Alternates t (bs ++ cs) ↔ Alternates t bs ∧ Alternates (t ^^ bs.length.bodd) cs := by
  induction bs generalizing t with
  | nil => simp
  | cons b bs ih =>
    have hlen : (!t ^^ bs.length.bodd) = (t ^^ (bs.length + 1).bodd) := by
      rw [Nat.bodd_succ]
      cases t <;> simp
    rw [List.cons_append, cons_iff, cons_iff, ih, hlen, and_assoc]
    rfl

/-- The bits are those of the numbers from zero on. -/
lemma map_range (t : Bool) (n : ℕ) : Alternates t ((List.range n).map fun k => t ^^ k.bodd) := by
  induction n with
  | zero => trivial
  | succ n ih =>
    rw [List.range_succ, List.map_append, append_iff]
    refine ⟨ih, ?_, trivial⟩
    simp

end Alternates
