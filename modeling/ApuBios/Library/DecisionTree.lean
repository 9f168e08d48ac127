import Mathlib.Tactic

/-!
# Programs that ask questions

A program asks questions that are answered with yes or no, and ends with a result or an error. What
answers them is left open: a list of answers leads along a path (`Ends`), a machine gives answers and
changes its state (`run`), and a specification holds whatever the answers are (`Sat`).
-/

inductive DecisionTree (ε ι α : Type) where
  | done (a : α)
  | fail (e : ε)
  | ask (i : ι) (next : Bool → DecisionTree ε ι α)

namespace DecisionTree

variable {ε ι σ α β : Type}

def bind (t : DecisionTree ε ι α) (f : α → DecisionTree ε ι β) : DecisionTree ε ι β :=
  match t with
  | done a => f a
  | fail e => fail e
  | ask i next => ask i fun b => bind (next b) f

instance : Monad (DecisionTree ε ι) where
  pure := done
  bind := bind

@[simp] lemma pure_eq (a : α) : (pure a : DecisionTree ε ι α) = done a := rfl

@[simp] lemma done_bind (a : α) (f : α → DecisionTree ε ι β) : done a >>= f = f a := rfl

@[simp] lemma fail_bind (e : ε) (f : α → DecisionTree ε ι β) : fail e >>= f = fail e := rfl

@[simp] lemma ask_bind (i : ι) (next : Bool → DecisionTree ε ι α) (f : α → DecisionTree ε ι β) :
    ask i next >>= f = ask i fun b => next b >>= f := rfl

/-- Asks for the answer itself. -/
def query (i : ι) : DecisionTree ε ι Bool := ask i done

@[simp] lemma query_bind (i : ι) (f : Bool → DecisionTree ε ι β) : query i >>= f = ask i f := rfl

/-! ### Paths -/

/-- With these answers the program ends in this way. -/
inductive Ends : DecisionTree ε ι α → List Bool → Except ε α → Prop
  | done (a : α) : Ends (done a) [] (.ok a)
  | fail (e : ε) : Ends (fail e) [] (.error e)
  | ask {i next b bs r} : Ends (next b) bs r → Ends (ask i next) (b :: bs) r

lemma ends_done {a b : α} {bs : List Bool} :
    Ends (done a : DecisionTree ε ι α) bs (.ok b) ↔ bs = [] ∧ a = b := by
  constructor
  · intro h
    cases h
    exact ⟨rfl, rfl⟩
  · rintro ⟨rfl, rfl⟩
    exact .done a

lemma not_ends_fail {e : ε} {b : α} {bs : List Bool} :
    ¬ Ends (fail e : DecisionTree ε ι α) bs (.ok b) := by
  intro h
  cases h

lemma ends_ask {i : ι} {next : Bool → DecisionTree ε ι α} {bs : List Bool} {r : Except ε α} :
    Ends (ask i next) bs r ↔ ∃ b cs, bs = b :: cs ∧ Ends (next b) cs r := by
  constructor
  · intro h
    cases h with
    | ask h => exact ⟨_, _, rfl, h⟩
  · rintro ⟨b, cs, rfl, h⟩
    exact .ask h

/-- A path through two programs goes through the first to its end. -/
lemma ends_bind {t : DecisionTree ε ι α} {f : α → DecisionTree ε ι β} {bs : List Bool} {b : β} :
    Ends (t >>= f) bs (.ok b) ↔
      ∃ a cs ds, bs = cs ++ ds ∧ Ends t cs (.ok a) ∧ Ends (f a) ds (.ok b) := by
  induction t generalizing bs with
  | done a =>
    constructor
    · intro h
      exact ⟨a, [], bs, rfl, .done a, h⟩
    · rintro ⟨a', cs, ds, rfl, ht, hf⟩
      obtain ⟨rfl, rfl⟩ := ends_done.1 ht
      exact hf
  | fail e =>
    constructor
    · intro h
      exact absurd h not_ends_fail
    · rintro ⟨a', cs, ds, rfl, ht, hf⟩
      exact absurd ht not_ends_fail
  | ask i next ih =>
    constructor
    · intro h
      obtain ⟨c, bs', rfl, hnext⟩ := ends_ask.1 h
      obtain ⟨a, cs, ds, rfl, ht, hf⟩ := (ih c).1 hnext
      exact ⟨a, c :: cs, ds, rfl, .ask ht, hf⟩
    · rintro ⟨a, cs, ds, rfl, ht, hf⟩
      obtain ⟨c, cs, rfl, hnext⟩ := ends_ask.1 ht
      exact .ask ((ih c).2 ⟨a, cs, ds, rfl, hnext, hf⟩)

/-- A path leads to one end. -/
lemma Ends.unique {t : DecisionTree ε ι α} {bs : List Bool} {r r' : Except ε α} (h : Ends t bs r)
    (h' : Ends t bs r') : r = r' := by
  induction h with
  | done a =>
    cases h'
    rfl
  | fail e =>
    cases h'
    rfl
  | ask _ ih =>
    cases h' with
    | ask h' => exact ih h'

/-! ### Machines -/

/-- The run with a machine that answers the questions, unless it fails itself. -/
def run (answer : σ → ι → Except ε (Bool × σ)) : DecisionTree ε ι α → σ → Except ε (α × σ)
  | done a, s => .ok (a, s)
  | fail e, _ => .error e
  | ask i next, s =>
    match answer s i with
    | .ok (b, s) => run answer (next b) s
    | .error e => .error e

/-- The answers that are given in the run. -/
def trace (answer : σ → ι → Except ε (Bool × σ)) : DecisionTree ε ι α → σ → List Bool
  | done _, _ => []
  | fail _, _ => []
  | ask i next, s =>
    match answer s i with
    | .ok (b, s) => b :: trace answer (next b) s
    | .error _ => []

section Run

variable {answer : σ → ι → Except ε (Bool × σ)} {t : DecisionTree ε ι α} {s : σ}

lemma run_ask_of_ok {i : ι} {next : Bool → DecisionTree ε ι α} {b : Bool} {s' : σ}
    (h : answer s i = .ok (b, s')) : run answer (ask i next) s = run answer (next b) s' := by
  rw [run, h]

lemma run_ask_of_error {i : ι} {next : Bool → DecisionTree ε ι α} {e : ε}
    (h : answer s i = .error e) : run answer (ask i next) s = .error e := by
  rw [run, h]

lemma trace_ask_of_ok {i : ι} {next : Bool → DecisionTree ε ι α} {b : Bool} {s' : σ}
    (h : answer s i = .ok (b, s')) : trace answer (ask i next) s = b :: trace answer (next b) s' := by
  rw [trace, h]

/-- The run of a program and of what follows. -/
lemma run_bind {f : α → DecisionTree ε ι β} :
    run answer (t >>= f) s = (run answer t s).bind fun x => run answer (f x.1) x.2 := by
  induction t generalizing s with
  | done a => rfl
  | fail e => rfl
  | ask i next ih =>
    cases hanswer : answer s i with
    | error e =>
      rw [ask_bind, run_ask_of_error hanswer, run_ask_of_error hanswer]
      rfl
    | ok x => rw [ask_bind, run_ask_of_ok hanswer, run_ask_of_ok hanswer, ih]

/-- Every run that ends follows the path of its answers. -/
lemma ends_of_run {a : α} {s' : σ} (h : run answer t s = .ok (a, s')) :
    Ends t (trace answer t s) (.ok a) := by
  induction t generalizing s with
  | done a' =>
    cases h
    exact .done a
  | fail e => cases h
  | ask i next ih =>
    cases hanswer : answer s i with
    | error e =>
      rw [run_ask_of_error hanswer] at h
      cases h
    | ok x =>
      rw [run_ask_of_ok hanswer] at h
      rw [trace_ask_of_ok hanswer]
      exact .ask (ih _ h)

/-- A machine that answers as another does runs to the same result. -/
lemma run_of_simulates {τ : Type} {answer' : τ → ι → Except ε (Bool × τ)} {R : σ → τ → Prop}
    (hR : ∀ s s' i b s₁, R s s' → answer s i = .ok (b, s₁) →
      ∃ s₁', answer' s' i = .ok (b, s₁') ∧ R s₁ s₁') {a : α} {s₁ : σ} {s' : τ} (hs : R s s')
    (h : run answer t s = .ok (a, s₁)) :
    (∃ s₁', run answer' t s' = .ok (a, s₁') ∧ R s₁ s₁') ∧ trace answer' t s' = trace answer t s := by
  induction t generalizing s s' with
  | done a' =>
    cases h
    exact ⟨⟨s', rfl, hs⟩, rfl⟩
  | fail e => cases h
  | ask i next ih =>
    cases hanswer : answer s i with
    | error e =>
      rw [run_ask_of_error hanswer] at h
      cases h
    | ok x =>
      obtain ⟨b, s₂⟩ := x
      rw [run_ask_of_ok hanswer] at h
      obtain ⟨s₂', hanswer', hs₂⟩ := hR _ _ _ _ _ hs hanswer
      obtain ⟨hrun, htrace⟩ := ih b hs₂ h
      rw [run_ask_of_ok hanswer', trace_ask_of_ok hanswer', trace_ask_of_ok hanswer, htrace]
      exact ⟨hrun, rfl⟩

end Run

/-! ### Specifications -/

/-- Only these questions are asked; results and errors are as they should be. -/
def Sat (I : ι → Prop) (Q : α → Prop) (F : ε → Prop) : DecisionTree ε ι α → Prop
  | done a => Q a
  | fail e => F e
  | ask i next => I i ∧ ∀ b, Sat I Q F (next b)

section Sat

variable {I : ι → Prop} {Q Q' : α → Prop} {R : β → Prop} {F : ε → Prop} {t : DecisionTree ε ι α}

lemma sat_done {a : α} (h : Q a) : Sat I Q F (done a) := h

lemma sat_fail {e : ε} (h : F e) : Sat I Q F (fail e : DecisionTree ε ι α) := h

lemma Sat.bind {f : α → DecisionTree ε ι β} (h : Sat I Q F t) (hf : ∀ a, Q a → Sat I R F (f a)) :
    Sat I R F (t >>= f) := by
  induction t with
  | done a => exact hf a h
  | fail e => exact h
  | ask i next ih => exact ⟨h.1, fun b => ih b (h.2 b)⟩

lemma Sat.mono (h : Sat I Q F t) (hQ : ∀ a, Q a → Q' a) : Sat I Q' F t := by
  induction t with
  | done a => exact hQ a h
  | fail e => exact h
  | ask i next ih => exact ⟨h.1, fun b => ih b (h.2 b)⟩

/-- Results are those that some path leads to. -/
lemma Sat.ends (h : Sat I Q F t) : Sat I (fun a => ∃ bs, Ends t bs (.ok a)) F t := by
  induction t with
  | done a => exact ⟨[], .done a⟩
  | fail e => exact h
  | ask i next ih =>
    refine ⟨h.1, fun b => (ih b (h.2 b)).mono ?_⟩
    rintro a ⟨bs, hends⟩
    exact ⟨b :: bs, .ask hends⟩

/-- Machines that answer such questions alike run alike. -/
lemma Sat.run_congr {answer answer' : σ → ι → Except ε (Bool × σ)} {J : σ → Prop} (h : Sat I Q F t)
    (hanswer : ∀ s i, J s → I i → answer' s i = answer s i ∧ ∀ b s', answer s i = .ok (b, s') → J s')
    {s : σ} (hs : J s) :
    DecisionTree.run answer' t s = DecisionTree.run answer t s ∧
      trace answer' t s = trace answer t s := by
  induction t generalizing s with
  | done a => exact ⟨rfl, rfl⟩
  | fail e => exact ⟨rfl, rfl⟩
  | ask i next ih =>
    obtain ⟨heq, hkeeps⟩ := hanswer s i hs h.1
    rw [DecisionTree.run, DecisionTree.run, trace, trace, heq]
    cases hs' : answer s i with
    | error e => exact ⟨rfl, rfl⟩
    | ok x =>
      obtain ⟨hrun, htrace⟩ := ih x.1 (h.2 x.1) (hkeeps _ _ hs')
      exact ⟨hrun, congrArg _ htrace⟩

/-- What the answers to such questions keep holds in every state of the run. -/
lemma Sat.run {answer : σ → ι → Except ε (Bool × σ)} {J : σ → Prop} (h : Sat I Q F t)
    (hanswer : ∀ s i, J s → I i → (∀ b s', answer s i = .ok (b, s') → J s') ∧
      ∀ e, answer s i = .error e → F e) {s : σ} (hs : J s) :
    (∀ a s', run answer t s = .ok (a, s') → Q a ∧ J s') ∧ ∀ e, run answer t s = .error e → F e := by
  induction t generalizing s with
  | done a =>
    refine ⟨fun a' s' heq => ?_, fun e heq => ?_⟩
    · obtain ⟨rfl, rfl⟩ : a = a' ∧ s = s' := by simpa [DecisionTree.run] using heq
      exact ⟨h, hs⟩
    · cases heq
  | fail e =>
    refine ⟨fun a' s' heq => ?_, fun e' heq => ?_⟩
    · cases heq
    · obtain rfl : e = e' := by simpa [DecisionTree.run] using heq
      exact h
  | ask i next ih =>
    obtain ⟨hok, herror⟩ := hanswer s i hs h.1
    cases heq : answer s i with
    | error e =>
      rw [run_ask_of_error heq]
      refine ⟨fun a s' heq' => ?_, fun e' heq' => ?_⟩
      · cases heq'
      · obtain rfl : e = e' := by simpa using heq'
        exact herror e heq
    | ok x =>
      obtain ⟨b, s'⟩ := x
      rw [run_ask_of_ok heq]
      exact ih b (h.2 b) (hok b s' heq)

end Sat

end DecisionTree
