import ApuBios.Device.Allocator.Allocate
import ApuBios.Device.Allocator.Configure

/-!
# The passes on any tree

What the passes do whether the resources fit or not: both end, and the second one assigns or
reports every resource that it takes.
-/

namespace ApuBios.Allocator

variable {t : Topology} {s s' s'' : Store} {w c : Window} {depth : ℕ} {r q bridge : ResourceId}
  {found : List ResourceId}

/-- Windows are handled one by one; what is to hold after some of them is given by `P`. -/
lemma forWindows_run {σ : Type} (ws : List Window) {f : Window → σ → Option σ}
    {P : List Window → σ → Prop} {x : σ}
    (hstep : ∀ p w q, ws = p ++ w :: q → ∀ x, P p x → ∃ x', f w x = some x' ∧ P (p ++ [w]) x')
    (hx : P [] x) : ∃ x', forWindows f (ws.map some) x = some x' ∧ P ws x' := by
  suffices h : ∀ q p x, ws = p ++ q → P p x →
      ∃ x', forWindows f (q.map some) x = some x' ∧ P ws x' from h ws [] x rfl hx
  intro q
  induction q with
  | nil =>
    rintro p x rfl hp
    exact ⟨x, rfl, by simpa using hp⟩
  | cons w q ih =>
    intro p x hws hp
    obtain ⟨x₁, heq, h₁⟩ := hstep p w q hws x hp
    obtain ⟨x', heq', h'⟩ := ih (p ++ [w]) x₁ (by simp [hws]) h₁
    exact ⟨x', by rw [List.map_cons, forWindows, heq, Option.bind_some, heq'], h'⟩

/-! ### The first pass -/

lemma foldl_computeResource_sameOrder (hbridge : bridge ∉ found) {l : List ResourceId}
    (hl : l ⊆ found) {x : Store × ℕ} :
    SameOrder found x.1 (l.foldl (fun x r => computeResource bridge r x) x).1 := by
  induction l generalizing x with
  | nil => exact .refl _ _
  | cons r l ih =>
    obtain ⟨hr, hl⟩ := List.cons_subset.mp hl
    exact (computeResource_sameOrder hbridge hr).trans (ih hl)

/-- The first pass ends, and leads to the same resources. -/
theorem computeResources_ends (htree : IsTree t s depth w) (hw : w.Typed) :
    ∃ s', computeResources t depth w s = some s' ∧ SameShape s s' := by
  induction depth generalizing s w with
  | zero => exact htree.elim
  | succ depth ih =>
    obtain ⟨hnode, hchildren⟩ := htree
    obtain ⟨found, hfound⟩ := Option.isSome_iff_exists.mp hnode.found
    have hbridge : w.bridge ∉ found := fun h => hnode.bridge (mem_below_of_found hfound h)
    obtain ⟨s₁, heq, h₁⟩ := forWindows_run (w.childWindows t s)
      (f := computeResources t depth) (P := fun _ x => SameShape s x) (fun p c q hws x hx => by
        have hc : c ∈ w.childWindows t s := by simp [hws]
        obtain ⟨x', heq, hx'⟩ := ih ((hchildren c hc).congr hx (hw.child hc)) (hw.child hc)
        exact ⟨x', heq, hx.trans hx'⟩) (.refl s)
    have hfound₁ : w.resources t (depth + 1) s₁ = some found :=
      (Window.resources_congr h₁ hw).trans hfound
    have hloop : forLargest t (depth + 1) w Prod.fst (computeResource w.bridge)
        (s₁, round (s w.bridge).base (s w.bridge).align) = some ((takeOrder s₁ found).foldl
          (fun x r => computeResource w.bridge r x)
          (s₁, round (s w.bridge).base (s w.bridge).align)) :=
      forLargest_eq hw hfound₁ (hnode.nodup found hfound) fun y r hr hy =>
        hy.trans (computeResource_sameOrder hbridge (mem_movable.mp hr).1)
    have hshape := (foldl_computeResource_sameOrder hbridge
      (fun r hr => (mem_movable.mp (takeOrder_subset hr)).1)
      (x := (s₁, round (s w.bridge).base (s w.bridge).align)) (l := takeOrder s₁ found)).1
    generalize (takeOrder s₁ found).foldl (fun x r => computeResource w.bridge r x)
      (s₁, round (s w.bridge).base (s w.bridge).align) = x at hloop hshape
    refine ⟨x.1.modify w.bridge fun b => { b with
      size := Word.sub 64 (round x.2 b.gran) (round b.base b.align) }, ?_,
      h₁.trans (hshape.trans (SameShape.modify rfl rfl))⟩
    rw [computeResources, hnode.children_eq, heq, Option.bind_some, hloop]
    rfl

/-! ### The second pass -/

/-- The resource has been assigned a value, or reported not to fit. -/
def Settled (x : Store × List ResourceId) (r : ResourceId) : Prop :=
  (x.1 r).has IORESOURCE_ASSIGNED = true ∨ r ∈ x.2

/-- The resources that `allocate_resources` takes, in the order of the calls. -/
def taken (t : Topology) (s : Store) : (depth : ℕ) → Window → List ResourceId
  | 0, _ => []
  | depth + 1, w => takeOrder s ((w.resources t (depth + 1) s).getD []) ++
      (w.childWindows t s).flatMap fun c => taken t s depth c

private lemma assigned_of_or (f : BitVec 32) :
    ((f ||| IORESOURCE_ASSIGNED) &&& IORESOURCE_ASSIGNED != 0) = true := by
  rw [and_assigned]
  decide

/-- The resource that is taken is assigned or reported. -/
lemma allocateResource_outcome (bridge r : ResourceId) (x : AllocateState) :
    (((allocateResource bridge r x).store r).has IORESOURCE_ASSIGNED = true ∧
      (allocateResource bridge r x).didntFit = x.didntFit) ∨
      (allocateResource bridge r x).didntFit = x.didntFit ++ [r] := by
  simp only [allocateResource, modify_limit_resource]
  split_ifs
  · exact Or.inl ⟨by dsimp only; rw [Store.modify_self]; exact assigned_of_or _, rfl⟩
  · exact Or.inl ⟨by dsimp only; rw [Store.modify_self]; exact assigned_of_assign _, rfl⟩
  · exact Or.inr rfl
  · exact Or.inl ⟨by dsimp only; rw [Store.modify_self]; exact assigned_of_assign _, rfl⟩
  · exact Or.inr rfl

lemma allocateResource_settled {x : AllocateState} :
    Settled ((allocateResource bridge r x).store, (allocateResource bridge r x).didntFit) r := by
  rcases allocateResource_outcome bridge r x with ⟨h, -⟩ | h
  · exact Or.inl h
  · exact Or.inr (by simp [h])

/-- What is settled stays settled. -/
lemma Settled.allocateResource {x : AllocateState} (h : Settled (x.store, x.didntFit) q) :
    Settled ((allocateResource bridge r x).store, (allocateResource bridge r x).didntFit) q := by
  by_cases hq : q = r
  · exact hq ▸ allocateResource_settled
  · rcases h with h | h
    · refine Or.inl ?_
      simp only [allocateResource_other hq]
      exact h
    · refine Or.inr ?_
      rcases allocateResource_outcome bridge r x with ⟨-, hfit⟩ | hfit <;> simp_all

lemma Settled.foldl {l : List ResourceId} {x : AllocateState} (h : Settled (x.store, x.didntFit) q) :
    Settled ((l.foldl (fun x r => Allocator.allocateResource bridge r x) x).store,
      (l.foldl (fun x r => Allocator.allocateResource bridge r x) x).didntFit) q := by
  induction l generalizing x with
  | nil => exact h
  | cons r l ih => exact ih h.allocateResource

lemma settled_foldl {l : List ResourceId} {x : AllocateState} (hq : q ∈ l) :
    Settled ((l.foldl (fun x r => allocateResource bridge r x) x).store,
      (l.foldl (fun x r => allocateResource bridge r x) x).didntFit) q := by
  induction l generalizing x with
  | nil => simp at hq
  | cons r l ih =>
    rcases List.mem_cons.mp hq with rfl | hq
    · exact allocateResource_settled.foldl
    · exact ih hq

lemma foldl_allocateResource_sameOrder (found : List ResourceId) {l : List ResourceId} {x : AllocateState} :
    SameOrder found x.store (l.foldl (fun x r => allocateResource bridge r x) x).store := by
  induction l generalizing x with
  | nil => exact .refl _ _
  | cons r l ih => exact allocateResource_sameOrder.trans ih

/-- Which resources are taken depends on the shape only. -/
lemma mem_taken_congr (hs : SameShape s s') (hw : w.Typed) (htree : IsTree t s depth w) :
    r ∈ taken t s' depth w ↔ r ∈ taken t s depth w := by
  induction depth generalizing w with
  | zero => rfl
  | succ depth ih =>
    obtain ⟨hnode, hchildren⟩ := htree
    obtain ⟨found, hfound⟩ := Option.isSome_iff_exists.mp hnode.found
    have hnodup := hnode.nodup found hfound
    rw [taken, taken, Window.resources_congr hs hw, Window.childWindows_congr hs hw, hfound,
      Option.getD_some, List.mem_append, List.mem_append, mem_takeOrder hnodup,
      mem_takeOrder hnodup, hs.movable_eq, List.mem_flatMap, List.mem_flatMap]
    refine or_congr Iff.rfl (exists_congr fun c => and_congr_right fun hc => ?_)
    exact ih (hw.child hc) (hchildren c hc)

/-- The second pass ends, leads to the same resources, and settles all that it takes. -/
theorem allocateResources_settles (htree : IsTree t s depth w) (hw : w.Typed)
    (didntFit : List ResourceId) :
    ∃ x, allocateResources t depth w (s, didntFit) = some x ∧ SameShape s x.1 ∧
      (∀ q, Settled (s, didntFit) q → Settled x q) ∧ ∀ q ∈ taken t s depth w, Settled x q := by
  induction depth generalizing s w didntFit with
  | zero => exact htree.elim
  | succ depth ih =>
    obtain ⟨hnode, hchildren⟩ := htree
    obtain ⟨found, hfound⟩ := Option.isSome_iff_exists.mp hnode.found
    have hloop : forLargest t (depth + 1) w AllocateState.store (allocateResource w.bridge)
        ⟨s, (s w.bridge).base, didntFit⟩ = some ((takeOrder s found).foldl
          (fun x r => allocateResource w.bridge r x) ⟨s, (s w.bridge).base, didntFit⟩) :=
      forLargest_eq hw hfound (hnode.nodup found hfound) fun y r _ hy =>
        hy.trans allocateResource_sameOrder
    have hshape : SameShape s ((takeOrder s found).foldl
        (fun x r => allocateResource w.bridge r x) ⟨s, (s w.bridge).base, didntFit⟩).store :=
      (foldl_allocateResource_sameOrder found).1
    have hkeep : ∀ q, Settled (s, didntFit) q → Settled (((takeOrder s found).foldl
        (fun x r => allocateResource w.bridge r x) ⟨s, (s w.bridge).base, didntFit⟩).store,
        ((takeOrder s found).foldl (fun x r => allocateResource w.bridge r x)
          ⟨s, (s w.bridge).base, didntFit⟩).didntFit) q := fun q hq => Settled.foldl hq
    have hloopSettled : ∀ q ∈ takeOrder s found, Settled (((takeOrder s found).foldl
        (fun x r => allocateResource w.bridge r x) ⟨s, (s w.bridge).base, didntFit⟩).store,
        ((takeOrder s found).foldl (fun x r => allocateResource w.bridge r x)
          ⟨s, (s w.bridge).base, didntFit⟩).didntFit) q := fun q hq => settled_foldl hq
    generalize (takeOrder s found).foldl (fun x r => allocateResource w.bridge r x)
      ⟨s, (s w.bridge).base, didntFit⟩ = x at hloop hshape hkeep hloopSettled
    obtain ⟨s₁, hs₁⟩ : ∃ s₁, s₁ = x.store.modify w.bridge fun b => { b with
      flags := b.flags ||| IORESOURCE_ASSIGNED } := ⟨_, rfl⟩
    have hshape₁ : SameShape s s₁ :=
      hshape.trans (hs₁ ▸ SameShape.modify rfl (and_status_assign _))
    have hflag : ∀ q, Settled (x.store, x.didntFit) q → Settled (s₁, x.didntFit) q := by
      rintro q (hq | hq)
      · refine Or.inl ?_
        dsimp only at hq ⊢
        by_cases hqb : q = w.bridge
        · rw [hqb, hs₁, Store.modify_self]
          exact assigned_of_or _
        · rwa [hs₁, Store.modify_of_ne hqb]
      · exact Or.inr hq
    obtain ⟨y, heq, hy, hkeep', hsettled⟩ := forWindows_run (w.childWindows t s)
      (f := allocateResources t depth) (x := (s₁, x.didntFit))
      (P := fun p y => SameShape s y.1 ∧ (∀ q, Settled (s₁, x.didntFit) q → Settled y q) ∧
        ∀ c ∈ p, ∀ q ∈ taken t s depth c, Settled y q)
      (fun p c q hws y ⟨hy, hkeep, hsettled⟩ => by
        have hc : c ∈ w.childWindows t s := by simp [hws]
        obtain ⟨y', heq, hy', hkeep', hsettled'⟩ :=
          ih ((hchildren c hc).congr hy (hw.child hc)) (hw.child hc) y.2
        refine ⟨y', heq, hy.trans hy', fun q hq => hkeep' q (hkeep q hq), fun v hv q hq => ?_⟩
        rcases List.mem_append.mp hv with hv | hv
        · exact hkeep' q (hsettled v hv q hq)
        · obtain rfl := List.mem_singleton.mp hv
          exact hsettled' q ((mem_taken_congr hy (hw.child hc) (hchildren v hc)).mpr hq))
      ⟨hshape₁, fun _ hq => hq, by simp⟩
    refine ⟨y, ?_, hy, fun q hq => hkeep' q (hflag q (hkeep q hq)), fun q hq => ?_⟩
    · have hsame : w.children t s₁ = (w.childWindows t s).map some :=
        (Window.children_congr hshape₁ hw).trans hnode.children_eq
      rw [allocateResources, hloop, Option.bind_some, ← hs₁]
      simp only [hsame, heq]
    · rw [taken, hfound, Option.getD_some] at hq
      rcases List.mem_append.mp hq with hq | hq
      · exact hkeep' q (hflag q (hloopSettled q hq))
      · obtain ⟨c, hc, hq⟩ := List.mem_flatMap.mp hq
        exact hsettled c hc q hq

end ApuBios.Allocator
