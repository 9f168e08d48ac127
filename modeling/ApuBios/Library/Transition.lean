import Mathlib.Tactic

/-!
# Runs of a partial step function

A step function `step : σ → ε → Option σ` takes an event in a state, or refuses it. The rules
below lift what one step preserves to whole runs, also when the steps of the run are known to
meet a side condition.
-/

namespace Transition

variable {σ ε : Type*} (step : σ → ε → Option σ)

/-- The state after a list of events, if every one of them is accepted. -/
def exec (s : σ) : List ε → Option σ
  | [] => some s
  | e :: es => (step s e).bind fun t => exec t es

/-- What the accepted events of a run put out, one after the other. -/
def outputs {α : Type*} (out : σ → ε → List α) (s : σ) : List ε → List α
  | [] => []
  | e :: es => (step s e).elim [] fun t => out s e ++ outputs out t es

/-- Every accepted event of the run meets the side condition `G` in the state it is taken in. -/
def Meets (G : σ → ε → Prop) (s : σ) : List ε → Prop
  | [] => True
  | e :: es =>
    match step s e with
    | none => True
    | some t => G s e ∧ Meets G t es

instance Meets.decidable (G : σ → ε → Prop) [∀ s e, Decidable (G s e)] (s : σ) (es : List ε) :
    Decidable (Meets step G s es) :=
  match es with
  | [] => .isTrue trivial
  | e :: es =>
    match h : step s e with
    | none => .isTrue (by simp [Meets, h])
    | some t =>
      have := Meets.decidable G t es
      decidable_of_iff (G s e ∧ Meets step G t es) (by simp [Meets, h])

/-- Every event of the run meets the side condition `G` in the state it is taken in, the last one
that is not accepted included. -/
def Admits (G : σ → ε → Prop) (s : σ) : List ε → Prop
  | [] => True
  | e :: es => G s e ∧ ∀ t ∈ step s e, Admits G t es

instance Admits.decidable (G : σ → ε → Prop) [∀ s e, Decidable (G s e)] (s : σ) (es : List ε) :
    Decidable (Admits step G s es) :=
  match es with
  | [] => .isTrue trivial
  | e :: es =>
    match h : step s e with
    | none => decidable_of_iff (G s e) (by simp [Admits, h])
    | some t =>
      have := Admits.decidable G t es
      decidable_of_iff (G s e ∧ Admits step G t es) (by simp [Admits, h])

variable {step} {G H : σ → ε → Prop} {I : σ → Prop} {s t : σ} {es : List ε}

lemma exec_cons {e : ε} (h : exec step s (e :: es) = some t) :
    ∃ u, step s e = some u ∧ exec step u es = some t := by
  simpa [exec, Option.bind_eq_some_iff] using h

lemma exec_append (p q : List ε) :
    exec step s (p ++ q) = (exec step s p).bind fun t => exec step t q := by
  induction p generalizing s with
  | nil => rfl
  | cons e p ih =>
    rw [List.cons_append, exec, exec]
    cases step s e with
    | none => rfl
    | some u => exact ih

lemma outputs_append {α : Type*} {out : σ → ε → List α} {p q : List ε} (h : exec step s p = some t) :
    outputs step out s (p ++ q) = outputs step out s p ++ outputs step out t q := by
  induction p generalizing s with
  | nil =>
    obtain rfl := Option.some.inj h
    rfl
  | cons e p ih =>
    obtain ⟨u, hu, hrest⟩ := exec_cons h
    rw [List.cons_append, outputs, outputs, hu, Option.elim_some, Option.elim_some, ih hrest,
      List.append_assoc]

lemma meets_append_iff {p q : List ε} (h : exec step s p = some t) :
    Meets step G s (p ++ q) ↔ Meets step G s p ∧ Meets step G t q := by
  induction p generalizing s with
  | nil =>
    obtain rfl := Option.some.inj h
    exact ⟨fun hq => ⟨trivial, hq⟩, fun hq => hq.2⟩
  | cons e p ih =>
    obtain ⟨u, hu, hrest⟩ := exec_cons h
    simp only [List.cons_append, Meets, hu]
    rw [ih hrest, and_assoc]

lemma admits_append_iff {p q : List ε} :
    Admits step G s (p ++ q) ↔ Admits step G s p ∧ ∀ t ∈ exec step s p, Admits step G t q := by
  induction p generalizing s with
  | nil => simp [Admits, exec]
  | cons e p ih =>
    simp only [List.cons_append, Admits, exec, Option.mem_def, Option.bind_eq_some_iff, ih]
    constructor
    · rintro ⟨hG, hrest⟩
      exact ⟨⟨hG, fun u hu => (hrest u hu).1⟩, fun t ⟨u, hu, ht⟩ => (hrest u hu).2 t ht⟩
    · rintro ⟨⟨hG, hp⟩, hq⟩
      exact ⟨hG, fun u hu => ⟨hp u hu, fun t ht => hq t ⟨u, hu, ht⟩⟩⟩

lemma Meets.and (hG : Meets step G s es) (hH : Meets step H s es) :
    Meets step (fun s e => G s e ∧ H s e) s es := by
  induction es generalizing s with
  | nil => trivial
  | cons e es ih =>
    rw [Meets] at hG hH ⊢
    cases hstep : step s e with
    | none => trivial
    | some u =>
      rw [hstep] at hG hH
      exact ⟨⟨hG.1, hH.1⟩, ih hG.2 hH.2⟩

lemma Admits.and (hG : Admits step G s es) (hH : Admits step H s es) :
    Admits step (fun s e => G s e ∧ H s e) s es := by
  induction es generalizing s with
  | nil => trivial
  | cons e es ih => exact ⟨⟨hG.1, hH.1⟩, fun t ht => ih (hG.2 t ht) (hH.2 t ht)⟩

/-- What every step that meets the side condition preserves holds after every run whose steps
meet it. -/
theorem invariant_of_meets (hstep : ∀ s e t, I s → G s e → step s e = some t → I t)
    (hs : I s) (hG : Meets step G s es) (h : exec step s es = some t) : I t := by
  induction es generalizing s with
  | nil => exact Option.some.inj h ▸ hs
  | cons e es ih =>
    obtain ⟨u, hu, hrest⟩ := exec_cons h
    rw [Meets, hu] at hG
    exact ih (hstep s e u hs hG.1 hu) hG.2 hrest

/-- What every step preserves holds after every run. -/
theorem invariant (hstep : ∀ s e t, I s → step s e = some t → I t) (hs : I s)
    (h : exec step s es = some t) : I t := by
  induction es generalizing s with
  | nil => exact Option.some.inj h ▸ hs
  | cons e es ih =>
    obtain ⟨u, hu, hrest⟩ := exec_cons h
    exact ih (hstep s e u hs hu) hrest

/-- Runs put out the same if their events do in the states that the side condition leads to. -/
lemma outputs_eq_of_meets {α : Type*} {out out' : σ → ε → List α}
    (hstep : ∀ s e t, I s → G s e → step s e = some t → I t) (hout : ∀ s e, I s → out s e = out' s e)
    (hs : I s) (hG : Meets step G s es) : outputs step out s es = outputs step out' s es := by
  induction es generalizing s with
  | nil => rfl
  | cons e es ih =>
    rw [outputs, outputs]
    cases hsome : step s e with
    | none => rfl
    | some t =>
      rw [Meets, hsome] at hG
      rw [Option.elim_some, Option.elim_some, hout s e hs, ih (hstep s e t hs hG.1 hsome) hG.2]

/-- If every step that meets the side condition is accepted and preserves `I`, then every run
whose steps meet it is accepted and preserves `I`. -/
theorem exec_of_admits (hstep : ∀ s e, I s → G s e → ∃ t, step s e = some t ∧ I t)
    (hs : I s) (hG : Admits step G s es) : ∃ t, exec step s es = some t ∧ I t := by
  induction es generalizing s with
  | nil => exact ⟨s, rfl, hs⟩
  | cons e es ih =>
    obtain ⟨u, hu, hIu⟩ := hstep s e hs hG.1
    obtain ⟨t, ht, hIt⟩ := ih hIu (hG.2 u hu)
    exact ⟨t, by rw [exec, hu, Option.bind_some, ht], hIt⟩

/-- The states that the accepted steps of a run lead to are those after its beginnings. -/
theorem meets_iff_prefix (hs : I s) :
    Meets step (fun s e => ∀ t ∈ step s e, I t) s es ↔
      ∀ p, p <+: es → ∀ t ∈ exec step s p, I t := by
  induction es generalizing s with
  | nil =>
    refine ⟨fun _ p hp t ht => ?_, fun _ => trivial⟩
    obtain rfl := List.prefix_nil.mp hp
    exact Option.some.inj ht ▸ hs
  | cons e es ih =>
    cases hstep : step s e with
    | none =>
      rw [Meets, hstep]
      refine ⟨fun _ p hp t ht => ?_, fun _ => trivial⟩
      rcases p with _ | ⟨e', p⟩
      · exact Option.some.inj ht ▸ hs
      · obtain ⟨rfl, -⟩ := List.cons_prefix_cons.mp hp
        simp [exec, hstep] at ht
    | some u =>
      rw [Meets, hstep]
      constructor
      · rintro ⟨hu, hrest⟩ p hp t ht
        rcases p with _ | ⟨e', p⟩
        · exact Option.some.inj ht ▸ hs
        · obtain ⟨rfl, hp'⟩ := List.cons_prefix_cons.mp hp
          rw [exec, hstep, Option.bind_some] at ht
          exact (ih (hu u rfl)).mp hrest p hp' t ht
      · intro h
        have hu : I u := h [e] (by simp) u (by simp [exec, hstep])
        refine ⟨fun t ht => Option.some.inj ht ▸ hu, (ih hu).mpr fun p hp t ht => ?_⟩
        exact h (e :: p) (List.cons_prefix_cons.mpr ⟨rfl, hp⟩) t
          (by rw [exec, hstep, Option.bind_some]; exact ht)

lemma meets_congr (hGH : ∀ s e, (step s e).isSome → (G s e ↔ H s e)) :
    Meets step G s es ↔ Meets step H s es := by
  induction es generalizing s with
  | nil => rfl
  | cons e es ih =>
    cases hstep : step s e with
    | none => simp [Meets, hstep]
    | some u =>
      simp only [Meets, hstep]
      exact and_congr (hGH s e (by simp [hstep])) ih

/-- Side conditions that agree where an invariant holds. -/
lemma admits_congr_of_invariant (hstep : ∀ s e t, I s → step s e = some t → I t)
    (hGH : ∀ s e, I s → (G s e ↔ H s e)) (hs : I s) :
    Admits step G s es ↔ Admits step H s es := by
  induction es generalizing s with
  | nil => rfl
  | cons e es ih =>
    exact and_congr (hGH s e hs) (forall₂_congr fun t ht => ih (hstep s e t hs ht))

lemma admits_congr (hGH : ∀ s e, G s e ↔ H s e) : Admits step G s es ↔ Admits step H s es :=
  admits_congr_of_invariant (I := fun _ => True) (fun _ _ _ _ _ => trivial) (fun s e _ => hGH s e) trivial

/-- A side condition that follows from what every step for an event of some kind preserves. -/
theorem admits_of_invariant {E : ε → Prop} (hstep : ∀ s e t, I s → E e → step s e = some t → I t)
    (hG : ∀ s e, I s → E e → G s e) (hs : I s) (hes : ∀ e ∈ es, E e) : Admits step G s es := by
  induction es generalizing s with
  | nil => trivial
  | cons e es ih =>
    rw [List.forall_mem_cons] at hes
    exact ⟨hG s e hs hes.1, fun t ht => ih (hstep s e t hs hes.1 ht) hes.2⟩

/-- If every step for an event of some kind is accepted and preserves `I`, then so does every run
of such events. -/
theorem exec_of_forall {E : ε → Prop} (hstep : ∀ s e, I s → E e → ∃ t, step s e = some t ∧ I t)
    (hs : I s) (hes : ∀ e ∈ es, E e) : ∃ t, exec step s es = some t ∧ I t := by
  refine exec_of_admits (G := fun _ e => E e) hstep hs ?_
  clear hs
  induction es generalizing s with
  | nil => trivial
  | cons e es ih =>
    rw [List.forall_mem_cons] at hes
    exact ⟨hes.1, fun t _ => ih hes.2⟩

/-- If each step keeps `I` exactly under the side condition, then `I` holds throughout a run exactly
if the steps of the run meet it. -/
theorem prefix_iff_meets {J : σ → Prop} {E : ε → Prop}
    (hstep : ∀ s e t, J s → E e → step s e = some t → J t ∧ (I s → (I t ↔ G s e)))
    (hJ : J s) (hs : I s) (hes : ∀ e ∈ es, E e) :
    (∀ p, p <+: es → ∀ t ∈ exec step s p, I t) ↔ Meets step G s es := by
  rw [← meets_iff_prefix hs]
  induction es generalizing s with
  | nil => rfl
  | cons e es ih =>
    rw [List.forall_mem_cons] at hes
    cases hsome : step s e with
    | none => simp [Meets, hsome]
    | some t =>
      obtain ⟨hJ', hiff⟩ := hstep s e t hJ hes.1 hsome
      simp only [Meets, hsome, Option.mem_def, Option.some.injEq, forall_eq', hiff hs]
      exact and_congr_right fun hG => ih hJ' ((hiff hs).mpr hG) hes.2

end Transition
