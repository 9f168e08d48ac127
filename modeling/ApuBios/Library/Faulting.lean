import Mathlib.Tactic

/-!
# Programs that may fault

A program changes a state and ends with a result or a fault. It blocks when it asks its environment
for something that it does not get. Partial correctness says what holds where it ends, with one
postcondition for the results and one for the faults.
-/

namespace Faulting

universe u

variable {σ φ : Type*} {α β : Type u}

inductive Outcome (σ φ α : Type*) where
  | done (a : α) (s : σ)
  | fault (f : φ) (s : σ)
  | blocked

def Prog (σ φ α : Type*) := σ → Outcome σ φ α

instance : Monad (Prog σ φ) where
  pure a := fun s => .done a s
  bind m f := fun s =>
    match m s with
    | .done a t => f a t
    | .fault e t => .fault e t
    | .blocked => .blocked

/-- The program ends in `Q`, or with a fault in `F`, or it blocks. -/
def Outcome.Sat (Q : α → σ → Prop) (F : φ → σ → Prop) : Outcome σ φ α → Prop
  | .done a s => Q a s
  | .fault f s => F f s
  | .blocked => True

variable {Q Q' : α → σ → Prop} {R : β → σ → Prop} {F F' : φ → σ → Prop} {s : σ}

lemma sat_pure {a : α} (h : Q a s) : ((pure a : Prog σ φ α) s).Sat Q F := h

lemma bind_of_done {m : Prog σ φ α} {f : α → Prog σ φ β} {a : α} {t : σ} (h : m s = .done a t) :
    (m >>= f) s = f a t := by
  change (match m s with | .done a t => f a t | .fault e t => .fault e t | .blocked => .blocked) = _
  rw [h]

lemma bind_of_fault {m : Prog σ φ α} {f : α → Prog σ φ β} {e : φ} {t : σ} (h : m s = .fault e t) :
    (m >>= f) s = .fault e t := by
  change (match m s with | .done a t => f a t | .fault e t => .fault e t | .blocked => .blocked) = _
  rw [h]

lemma sat_bind {m : Prog σ φ α} {f : α → Prog σ φ β} (hm : (m s).Sat Q F)
    (hf : ∀ a t, Q a t → (f a t).Sat R F) : ((m >>= f) s).Sat R F := by
  change (match m s with | .done a t => f a t | .fault e t => .fault e t | .blocked => .blocked :
    Outcome σ φ β).Sat R F
  cases hms : m s with
  | done a t => exact hf a t (by rw [hms] at hm; exact hm)
  | fault e t =>
    rw [hms] at hm
    exact hm
  | blocked => trivial

lemma Outcome.Sat.mono {o : Outcome σ φ α} (h : o.Sat Q F) (hQ : ∀ a s, Q a s → Q' a s)
    (hF : ∀ f s, F f s → F' f s) : o.Sat Q' F' := by
  cases o with
  | done a s => exact hQ a s h
  | fault f s => exact hF f s h
  | blocked => trivial

end Faulting
