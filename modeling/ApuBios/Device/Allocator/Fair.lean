import ApuBios.Device.Allocator.Avoid
import ApuBios.Device.Allocator.Rounds

/-!
# What is assigned when not everything fits

The first pass makes every window as large as what is behind it, unless a size wraps around. A bus
on which all that counts as assigned is aligned, in its limits, apart, and inside the window above it
is fair (`FairAt`): buses that are laid out, behind windows that are roomy enough, are
(`Everywhere.fair`).
-/

namespace ApuBios.Allocator

open Packing Transition

variable {t : Topology} {s s' : Store} {w c : Window} {depth : ℕ} {r q bridge : ResourceId}
  {found : List ResourceId} {P : Window → List ResourceId → Prop}

/-! ### Inside the window above -/

/-- Every bus behind the windows on the bus has the property. -/
def EverywhereBelow (t : Topology) (s : Store) (P : Window → List ResourceId → Prop) :
    (depth : ℕ) → Window → Prop
  | 0, _ => True
  | depth + 1, w => ∀ c ∈ w.childWindows t s, Everywhere t s P depth c

lemma Everywhere.everywhereBelow (h : Everywhere t s P depth w) : EverywhereBelow t s P depth w := by
  cases depth with
  | zero => trivial
  | succ depth => exact h.2

/-- The window is as large and as aligned as what is on its bus needs. -/
structure RoomyAt (s : Store) (w : Window) (found : List ResourceId) : Prop where
  size : packResources s 0 (takeOrder s found) ≤ (s w.bridge).size
  align : ∀ r ∈ movable s found, (s r).size ≠ 0 → (s r).align ≤ (s w.bridge).align
  io : ∀ r ∈ movable s found, (s r).has IORESOURCE_IO = true → 10 ≤ (s w.bridge).align

/-- What counts as assigned on a bus is aligned, in its limits and apart, and what is behind a window
that is on the bus itself is inside of it. -/
structure FairAt (t : Topology) (s : Store) (w : Window) (found : List ResourceId) : Prop where
  placed : ∀ r ∈ movable s found, (s r).Occupies → 2 ^ (s r).align ∣ (s r).base ∧
    (s r).base + (s r).size ≤ (s r).limit + 1
  apart : ∀ r ∈ movable s found, ∀ q ∈ movable s found, r ≠ q → (s r).Occupies → (s q).Occupies →
    (s r).base + (s r).size ≤ (s q).base ∨ (s q).base + (s q).size ≤ (s r).base
  inside : ∀ c ∈ w.childWindows t s, c.bridge ∈ movable s found → ∀ r,
    Found t s c.typeMask c.type c.bus r → isFixed s r = false → (s r).Occupies →
      (s c.bridge).base ≤ (s r).base ∧
        (s r).base + (s r).size ≤ (s c.bridge).base + (s c.bridge).size

/-- A nonempty resource takes some of the room of its bus. -/
lemma packResources_pos {l : List ResourceId} (hr : r ∈ l) (hsize : (s r).size ≠ 0) :
    0 < packResources s 0 l := by
  obtain ⟨p, k, rfl⟩ := List.append_of_mem hr
  have hle : place s (packResources s 0 p) r + (s r).size ≤ packResources s 0 (p ++ r :: k) :=
    start_add_size_le_pack fun _ _ _ => le_place
  omega

/-- From an aligned base on, everything fits into the room that was computed from zero on. -/
lemma RoomyAt.packResources_le (h : RoomyAt s w found)
    (haligned : 2 ^ (s w.bridge).align ∣ (s w.bridge).base) :
    packResources s (s w.bridge).base (takeOrder s found) ≤
      (s w.bridge).base + (s w.bridge).size := by
  have hshift : packResources s (s w.bridge).base (takeOrder s found) =
      (s w.bridge).base + packResources s 0 (takeOrder s found) := by
    refine pack_shift (x := 0) fun y r hr => place_shift (fun hsize => ?_) fun _ hio => ?_
    · exact (Nat.pow_dvd_pow 2 (h.align r (takeOrder_subset hr) hsize)).trans haligned
    · exact (Nat.pow_dvd_pow 2 (h.io r (takeOrder_subset hr) hio)).trans haligned
  have := h.size
  omega

/-- If the bus and those behind its windows are laid out, it is fair. -/
lemma LaidOutAt.fairAt (h : LaidOutAt t s w found) (htree : IsTree t s (depth + 1) w)
    (hbehind : ∀ c ∈ w.childWindows t s, ∀ found' ∈ c.resources t depth s,
      LaidOutAt t s c found' ∧ RoomyAt s c found') : FairAt t s w found := by
  refine ⟨fun r hr hrs => ?_, h.apart, fun c hc hcm r hr hfixed hrs => ?_⟩
  · obtain ⟨haligned, -, hlimit, -⟩ := h.placed r hr hrs
    exact ⟨haligned, hlimit⟩
  · have hctree := htree.2 c hc
    cases depth with
    | zero => exact hctree.elim
    | succ depth =>
      obtain ⟨found', hfound'⟩ := Option.isSome_iff_exists.mp hctree.1.found
      obtain ⟨hlaid, hroomy⟩ := hbehind c hc found' hfound'
      have hrm : r ∈ movable s found' := mem_movable.mpr ⟨hr.mem hfound', hfixed⟩
      have hpos := packResources_pos
        ((mem_takeOrder (hctree.1.nodup found' hfound')).mpr hrm) hrs.1
      have hsize := hroomy.size
      have hocc : (s c.bridge).Occupies := ⟨by omega, h.windows c hc (mem_movable.mp hcm).1⟩
      obtain ⟨-, hlow, -, hhigh⟩ := hlaid.placed r hrm hrs
      exact ⟨hlow, hhigh.trans (hroomy.packResources_le (h.placed _ hcm hocc).1)⟩

lemma Everywhere.fair (h : Everywhere t s (LaidOutAt t s) depth w) (htree : IsTree t s depth w)
    (hroomy : EverywhereBelow t s (RoomyAt s) depth w) : Everywhere t s (FairAt t s) depth w := by
  induction depth generalizing w with
  | zero => trivial
  | succ depth ih =>
    refine ⟨fun found hfound => (h.1 found hfound).fairAt htree fun c hc found' hfound' => ?_,
      fun c hc => ih (h.2 c hc) (htree.2 c hc) (hroomy c hc).everywhereBelow⟩
    have hcl := h.2 c hc
    have hcr := hroomy c hc
    cases depth with
    | zero => exact (htree.2 c hc).elim
    | succ depth => exact ⟨hcl.1 found' hfound', hcr.1 found' hfound'⟩

lemma RoomyAt.congr (h : RoomyAt s w found) (hs : SameShape s s')
    (hsame : ∀ r ∈ w.bridge :: found, (s' r).size = (s r).size ∧ (s' r).align = (s r).align) :
    RoomyAt s' w found := by
  rw [List.forall_mem_cons] at hsame
  obtain ⟨⟨hsizeb, halignb⟩, hsame⟩ := hsame
  have horder : takeOrder s' found = takeOrder s found :=
    SameOrder.takeOrder_eq ⟨hs, fun r hr => by rw [sortKey, (hsame r hr).1, (hsame r hr).2, sortKey]⟩
  have hpack : packResources s' 0 (takeOrder s found) = packResources s 0 (takeOrder s found) := by
    have hmem : ∀ r ∈ takeOrder s found, r ∈ found :=
      fun r hr => (mem_movable.mp (takeOrder_subset hr)).1
    exact pack_congr (fun _ r hr => place_congr (hsame r (hmem r hr)).1 (hsame r (hmem r hr)).2
      (hs.has_eq (by decide) r)) fun r hr => (hsame r (hmem r hr)).1
  refine ⟨?_, fun r hr hsize => ?_, fun r hr hio => ?_⟩
  · rw [horder, hpack, hsizeb]
    exact h.size
  · rw [hs.movable_eq] at hr
    obtain ⟨hsizer, halignr⟩ := hsame r (mem_movable.mp hr).1
    rw [hsizer] at hsize
    rw [halignr, halignb]
    exact h.align r hr hsize
  · rw [hs.movable_eq] at hr
    rw [hs.has_eq (by decide)] at hio
    rw [halignb]
    exact h.io r hr hio

lemma EverywhereBelow.imp {Q : Window → List ResourceId → Prop}
    (h : EverywhereBelow t s P depth w) (hs : SameShape s s') (hw : w.Typed)
    (hPQ : ∀ v found, v.Typed → v.bridge ∈ below t s depth w → found ⊆ below t s depth w →
      P v found → Q v found) : EverywhereBelow t s' Q depth w := by
  cases depth with
  | zero => trivial
  | succ depth =>
    intro c hc
    rw [Window.childWindows_congr hs hw] at hc
    exact (h c hc).imp hs (hw.child hc) fun v found hv hmem hsub =>
      hPQ v found hv (mem_below_of_child hc hmem) fun r hr =>
        mem_below_of_child hc (List.mem_cons_of_mem _ (hsub hr))

/-! ### The first pass -/

lemma Sound.modify (h : Sound s) {f : Resource → Resource} (hsize : (f (s r)).size < 2 ^ 64)
    (hlimit : (f (s r)).limit < 2 ^ 64) (halign : (f (s r)).align < 64) (hgran : (f (s r)).gran < 64)
    (hbase : (f (s r)).base < 2 ^ 64) : Sound (s.modify r f) := by
  refine ⟨fun q => ?_, fun q => ?_⟩
  · by_cases hq : q = r
    · subst hq
      rw [Store.modify_self]
      exact ⟨hsize, hlimit, halign, hgran⟩
    · rw [Store.modify_of_ne hq]
      exact h.valid q
  · by_cases hq : q = r
    · subst hq
      rwa [Store.modify_self]
    · rw [Store.modify_of_ne hq]
      exact h.base q

lemma Sound.computeResource {x : Store × ℕ} (h : Sound x.1) (hne : r ≠ bridge) :
    Sound (computeResource bridge r x).1 := by
  obtain ⟨s, base⟩ := x
  by_cases hsize : (s r).size = 0
  · rwa [computeResource_zero hsize]
  obtain ⟨hb, hr, hother, -⟩ := computeResource_eq base hsize hne
  obtain ⟨hsizeb, hlimitb, halignb, hgranb⟩ := h.valid bridge
  obtain ⟨hsizer, hlimitr, halignr, hgranr⟩ := h.valid r
  refine ⟨fun q => ?_, fun q => ?_⟩
  · by_cases hq : q = bridge
    · rw [hq, hb]
      exact ⟨hsizeb, (min_le_left _ _).trans_lt hlimitb, max_lt halignb halignr, hgranb⟩
    · by_cases hqr : q = r
      · rw [hqr, hr]
        exact ⟨hsizer, hlimitr, halignr, hgranr⟩
      · rw [hother q hq hqr]
        exact h.valid q
  · by_cases hq : q = bridge
    · rw [hq, hb]
      exact h.base bridge
    · by_cases hqr : q = r
      · rw [hqr, hr]
        exact round_lt halignr _
      · rw [hother q hq hqr]
        exact h.base q

lemma Sound.foldl_computeResource {x : Store × ℕ} (h : Sound x.1) {l : List ResourceId}
    (hbridge : bridge ∉ l) : Sound (l.foldl (fun x r => Allocator.computeResource bridge r x) x).1 := by
  induction l generalizing x with
  | nil => exact h
  | cons r l ih =>
    rw [List.mem_cons, not_or] at hbridge
    exact ih (h.computeResource (Ne.symm hbridge.1)) hbridge.2

/-- The fields stay numbers of their types. -/
lemma computeResources_sound (htree : IsTree t s depth w) (hw : w.Typed) (hsound : Sound s) :
    ∃ s', computeResources t depth w s = some s' ∧ Sound s' := by
  induction depth generalizing s w with
  | zero => exact htree.elim
  | succ depth ih =>
    obtain ⟨hnode, hchildren⟩ := htree
    obtain ⟨found, hfound⟩ := Option.isSome_iff_exists.mp hnode.found
    have hbridge : w.bridge ∉ found := fun h => hnode.bridge (mem_below_of_found hfound h)
    obtain ⟨s₁, heq, h₁, hsound₁⟩ := forWindows_run (w.childWindows t s)
      (f := computeResources t depth) (P := fun _ x => SameShape s x ∧ Sound x)
      (fun p c q hws x ⟨hx, hxs⟩ => by
        have hc : c ∈ w.childWindows t s := by simp [hws]
        have hctree := (hchildren c hc).congr hx (hw.child hc)
        obtain ⟨x', heq, hx'⟩ := computeResources_ends hctree (hw.child hc)
        obtain ⟨x'', heq', hsound'⟩ := ih hctree (hw.child hc) hxs
        obtain rfl := Option.some.inj (heq.symm.trans heq')
        exact ⟨x', heq, hx.trans hx', hsound'⟩) ⟨.refl s, hsound⟩
    have hfound₁ : w.resources t (depth + 1) s₁ = some found :=
      (Window.resources_congr h₁ hw).trans hfound
    have hloop : forLargest t (depth + 1) w Prod.fst (computeResource w.bridge)
        (s₁, round (s w.bridge).base (s w.bridge).align) = some ((takeOrder s₁ found).foldl
          (fun x r => computeResource w.bridge r x)
          (s₁, round (s w.bridge).base (s w.bridge).align)) :=
      forLargest_eq hw hfound₁ (hnode.nodup found hfound) fun y r hr hy =>
        hy.trans (computeResource_sameOrder hbridge (mem_movable.mp hr).1)
    have hsound₂ : Sound ((takeOrder s₁ found).foldl (fun x r => computeResource w.bridge r x)
        (s₁, round (s w.bridge).base (s w.bridge).align)).1 :=
      Sound.foldl_computeResource hsound₁
        fun h => hbridge (mem_movable.mp (takeOrder_subset h)).1
    generalize (takeOrder s₁ found).foldl (fun x r => computeResource w.bridge r x)
      (s₁, round (s w.bridge).base (s w.bridge).align) = x at hloop hsound₂
    refine ⟨x.1.modify w.bridge fun b => { b with
      size := Word.sub 64 (round x.2 b.gran) (round b.base b.align) }, ?_, ?_⟩
    · rw [computeResources, hnode.children_eq, heq, Option.bind_some, hloop]
      rfl
    · exact hsound₂.modify Word.sub_lt (hsound₂.valid _).2.1 (hsound₂.valid _).2.2.1
        (hsound₂.valid _).2.2.2 (hsound₂.base _)

/-- What the loop does to other resources than the bridge, wherever it starts. -/
lemma foldl_computeResource_moved {x : Store × ℕ} {l : List ResourceId} (hbridge : bridge ∉ l) :
    (∀ q, q ≠ bridge → Moved (x.1 q) ((l.foldl (fun x r => computeResource bridge r x) x).1 q)) ∧
      ∀ q, q ≠ bridge → q ∉ l → (l.foldl (fun x r => computeResource bridge r x) x).1 q = x.1 q := by
  induction l generalizing x with
  | nil => exact ⟨fun _ _ => .refl _, fun _ _ _ => rfl⟩
  | cons r l ih =>
    rw [List.mem_cons, not_or] at hbridge
    obtain ⟨s, base⟩ := x
    have hround : (∀ q, q ≠ bridge → Moved (s q) ((computeResource bridge r (s, base)).1 q)) ∧
        ∀ q, q ≠ bridge → q ≠ r → (computeResource bridge r (s, base)).1 q = s q := by
      by_cases hsize : (s r).size = 0
      · rw [computeResource_zero hsize]
        exact ⟨fun _ _ => .refl _, fun _ _ _ => rfl⟩
      · obtain ⟨-, hr, hother, -⟩ := computeResource_eq base hsize (Ne.symm hbridge.1)
        refine ⟨fun q hq => ?_, hother⟩
        by_cases hqr : q = r
        · rw [hqr, hr]
          exact ⟨rfl, rfl, rfl, rfl, rfl, rfl⟩
        · rw [hother q hq hqr]
          exact .refl _
    obtain ⟨hmoved, hframe⟩ := ih (x := computeResource bridge r (s, base)) hbridge.2
    refine ⟨fun q hq => ?_, fun q hq hql => ?_⟩
    · have h₁ := hround.1 q hq
      have h₂ := hmoved q hq
      exact ⟨h₂.size.trans h₁.size, h₂.limit.trans h₁.limit, h₂.flags.trans h₁.flags,
        h₂.index.trans h₁.index, h₂.align.trans h₁.align, h₂.gran.trans h₁.gran⟩
    · rw [List.mem_cons, not_or] at hql
      rw [List.foldl_cons, hframe q hq hql.2, hround.2 q hq hql.1]

lemma Everywhere.and {Q : Window → List ResourceId → Prop} (h : Everywhere t s P depth w)
    (h' : Everywhere t s Q depth w) : Everywhere t s (fun v found => P v found ∧ Q v found) depth w := by
  induction depth generalizing w with
  | zero => trivial
  | succ depth ih =>
    exact ⟨fun found hfound => ⟨h.1 found hfound, h'.1 found hfound⟩,
      fun c hc => ih (h.2 c hc) (h'.2 c hc)⟩

/-- The windows of bridges have no base yet, and those with I/O resources are aligned to at least
0x400. -/
abbrev FreshBelow (t : Topology) (s : Store) (depth : ℕ) (w : Window) : Prop :=
  EverywhereBelow t s (fun v found => (s v.bridge).base = 0 ∧
    ((∃ r ∈ found, (s r).has IORESOURCE_IO = true) → 10 ≤ (s v.bridge).align)) depth w

abbrev NoWrapBelow (t : Topology) (s : Store) (depth : ℕ) (w : Window) : Prop :=
  EverywhereBelow t s (NoWrapAt s) depth w

abbrev RoomyBelow (t : Topology) (s : Store) (depth : ℕ) (w : Window) : Prop :=
  EverywhereBelow t s (RoomyAt s) depth w

/-- What `compute_resources` does for the windows `ws` of domains, which may have a base. -/
structure Roomed (t : Topology) (s s' : Store) (depth : ℕ) (ws : List Window) : Prop where
  shape : SameShape s s'
  sound : Sound s'
  frame : ∀ r, (∀ w ∈ ws, r ∉ region t s depth w) → s' r = s r
  roomy : ∀ w ∈ ws, NoWrapBelow t s' depth w → RoomyBelow t s' depth w

lemma computeResources_roomed (htree : IsTree t s depth w) (hw : w.Typed) (hsound : Sound s)
    (hfresh : FreshBelow t s depth w) :
    ∃ s', computeResources t depth w s = some s' ∧ Roomed t s s' depth [w] := by
  obtain ⟨s', heq', hsound'⟩ := computeResources_sound htree hw hsound
  refine ⟨s', heq', ?_⟩
  cases depth with
  | zero => exact htree.elim
  | succ depth =>
    obtain ⟨hnode, hchildren⟩ := htree
    obtain ⟨found, hfound⟩ := Option.isSome_iff_exists.mp hnode.found
    have hnodup := hnode.nodup found hfound
    have hbridge : w.bridge ∉ found := fun h => hnode.bridge (mem_below_of_found hfound h)
    have hzero : ∀ c ∈ w.childWindows t s, BaseZero t s depth c := fun c hc =>
      Everywhere.imp (hfresh c hc) (.refl s) (hw.child hc) fun _ _ _ _ _ hat => hat.1
    obtain ⟨s₁, heq, h₁⟩ := forWindows_computed computeResources_computed (w.childWindows t s)
      (fun c hc => hw.child hc) hchildren hsound.valid hzero hnode.disjoint
    have hfound₁ : w.resources t (depth + 1) s₁ = some found :=
      (Window.resources_congr h₁.shape hw).trans hfound
    have hloop : forLargest t (depth + 1) w Prod.fst (computeResource w.bridge)
        (s₁, round (s w.bridge).base (s w.bridge).align) = some ((takeOrder s₁ found).foldl
          (fun x r => computeResource w.bridge r x)
          (s₁, round (s w.bridge).base (s w.bridge).align)) :=
      forLargest_eq hw hfound₁ hnodup fun y r hr hy =>
        hy.trans (computeResource_sameOrder hbridge (mem_movable.mp hr).1)
    have hmem : ∀ r ∈ takeOrder s₁ found, r ∈ found :=
      fun r hr => (mem_movable.mp (takeOrder_subset hr)).1
    obtain ⟨hmoved, hframe⟩ := foldl_computeResource_moved
      (x := (s₁, round (s w.bridge).base (s w.bridge).align)) (fun h => hbridge (hmem _ h))
    have hshape₂ := (foldl_computeResource_sameOrder hbridge hmem
      (x := (s₁, round (s w.bridge).base (s w.bridge).align))).1
    generalize (takeOrder s₁ found).foldl (fun x r => computeResource w.bridge r x)
      (s₁, round (s w.bridge).base (s w.bridge).align) = x at hloop hmoved hframe hshape₂
    have hs' : s' = x.1.modify w.bridge fun b => { b with
        size := Word.sub 64 (round x.2 b.gran) (round b.base b.align) } := by
      rw [computeResources, hnode.children_eq, heq, Option.bind_some, hloop] at heq'
      exact (Option.some.inj heq').symm
    have hshape : SameShape s₁ s' := hshape₂.trans (hs' ▸ SameShape.modify rfl rfl)
    have hmoved' : ∀ r, r ≠ w.bridge → Moved (s₁ r) (s' r) := fun r hr => by
      rw [hs', Store.modify_of_ne hr]
      exact hmoved r hr
    refine ⟨h₁.shape.trans hshape, hsound', fun r hr => ?_, fun v hv hnowrap c hc => ?_⟩
    · have hr' : r ≠ w.bridge ∧ r ∉ below t s (depth + 1) w := by simpa [region] using hr
      rw [hs', Store.modify_of_ne hr'.1, hframe r hr'.1
        fun h => hr'.2 (mem_below_of_found hfound (hmem r h))]
      exact h₁.frame r fun c hc h => hr'.2 (mem_below_of_child hc h)
    · obtain rfl := List.mem_singleton.mp hv
      have hshape' := h₁.shape.trans hshape
      have hc' := hc
      rw [Window.childWindows_congr hshape' hw] at hc
      have hct := hw.child hc
      have hkeep : ∀ r ∈ region t s depth c, Moved (s₁ r) (s' r) := fun r hr =>
        hmoved' r fun h => hnode.bridge (h ▸ mem_below_of_child hc hr)
      have hnowrap₁ : NoWrap t s₁ depth c :=
        NoWrap.congr (hnowrap c hc') hshape.symm hct fun r hr => by
          have hm := hkeep r (region_congr hshape' hct ▸ hr)
          exact ⟨hm.size.symm, hm.align.symm, hm.gran.symm, hm.limit.symm⟩
      have hsized : Sized t s' depth c := (h₁.sized c hc hnowrap₁).congr hshape hct fun r hr => by
        have hm := hkeep r (region_congr h₁.shape hct ▸ hr)
        exact ⟨hm.size, hm.align, hm.gran, hm.limit⟩
      have hio : IoAligned t s' depth c := by
        refine Everywhere.imp (hfresh c hc) hshape' hct fun u found hu hmem _ hat hport => ?_
        obtain ⟨r, hr, hflag⟩ := hport
        have halign := hat.2 ⟨r, hr, (hshape'.has_eq (by decide) r).symm.trans hflag⟩
        have hgrow := (h₁.grow u.bridge).1
        rw [(hkeep _ hmem).align]
        omega
      refine Everywhere.imp (Everywhere.and hsized hio) (.refl s') hct fun _ _ _ _ _ hboth => ?_
      obtain ⟨hat, hat'⟩ := hboth
      exact ⟨hat.size, fun r hr hsize => (hat.fits r hr hsize).1,
        fun r hr hflag => hat' ⟨r, (mem_movable.mp hr).1, hflag⟩⟩

/-- The windows of domains are computed one by one. -/
lemma forWindows_roomed (ws : List Window) (htyped : ∀ w ∈ ws, w.Typed)
    (htree : ∀ w ∈ ws, IsTree t s depth w) (hsound : Sound s)
    (hfresh : ∀ w ∈ ws, FreshBelow t s depth w)
    (hdisj : ws.Pairwise fun w w' => (region t s depth w).Disjoint (region t s depth w')) :
    ∃ s', forWindows (computeResources t depth) (ws.map some) s = some s' ∧
      Roomed t s s' depth ws := by
  refine forWindows_run ws (P := fun p x => Roomed t s x depth p) (fun p w q hws x hx => ?_)
    ⟨.refl s, hsound, fun _ _ => rfl, by simp⟩
  subst hws
  have hw := htyped w (by simp)
  have hapart : ∀ v ∈ p, (region t s depth v).Disjoint (region t s depth w) :=
    fun v hv => (List.pairwise_append.mp hdisj).2.2 v hv w (by simp)
  have hsame : ∀ r ∈ region t s depth w, x r = s r := fun r hr =>
    hx.frame r fun v hv hrv => hapart v hv hrv hr
  have hfresh' : FreshBelow t x depth w := by
    refine (hfresh w (by simp)).imp hx.shape hw fun v found _ hv _ ⟨hbase, hio⟩ => ?_
    rw [hsame _ (List.mem_cons_of_mem _ hv)]
    refine ⟨hbase, fun ⟨r, hr, hflag⟩ => hio ⟨r, hr, ?_⟩⟩
    exact (hx.shape.has_eq (by decide) r).symm.trans hflag
  obtain ⟨x', heq, hx'⟩ := computeResources_roomed ((htree w (by simp)).congr hx.shape hw) hw
    hx.sound hfresh'
  have hframe : ∀ r, r ∉ region t s depth w → x' r = x r := fun r hr =>
    hx'.frame r (by simpa [region_congr hx.shape hw] using hr)
  refine ⟨x', heq, hx.shape.trans hx'.shape, hx'.sound, fun r hr => ?_, fun v hv hnowrap => ?_⟩
  · rw [hframe r (hr w (by simp))]
    exact hx.frame r fun v hv => hr v (by simp [hv])
  · rcases List.mem_append.mp hv with hvp | hvw
    · have hvt := htyped v (by simp [hvp])
      have hbelow : ∀ r ∈ below t s depth v, x' r = x r := fun r hr =>
        hframe r fun hrw => hapart v hvp (List.mem_cons_of_mem _ hr) hrw
      have hnowrap' : NoWrapBelow t x depth v := by
        refine hnowrap.imp hx'.shape.symm hvt fun u found _ hu hsub hat => ?_
        rw [below_congr (hx.shape.trans hx'.shape) hvt] at hu hsub
        refine hat.congr hx'.shape.symm (fun r hr => .of_eq (hbelow r (hsub hr)).symm) ?_
        rw [hbelow _ hu]
      refine (hx.roomy v hvp hnowrap').imp hx'.shape hvt fun u found _ hu hsub hat => ?_
      rw [below_congr hx.shape hvt] at hu hsub
      refine hat.congr hx'.shape fun r hr => ?_
      rw [hbelow r (List.cons_subset.mpr ⟨hu, hsub⟩ hr)]
      exact ⟨rfl, rfl⟩
    · obtain rfl := List.mem_singleton.mp hvw
      exact hx'.roomy v (by simp) hnowrap

/-! ### Between the passes -/

/-- What `avoid_fixed_resources` and the move to the top leave as it is. -/
structure Shifted (s s' : Store) : Prop where
  shape : SameShape s s'
  sizes : SameSizes s s'
  flags : ∀ r, (s' r).flags = (s r).flags
  gran : ∀ r, (s' r).gran = (s r).gran
  limit : ∀ r, (s' r).limit ≤ (s r).limit
  base : Sound s → ∀ r, (s' r).base < 2 ^ 64

lemma Shifted.refl (s : Store) : Shifted s s :=
  ⟨.refl s, .refl s, fun _ => rfl, fun _ => rfl, fun _ => le_rfl, fun hs => hs.base⟩

lemma Shifted.sound (h : Shifted s s') (hsound : Sound s) : Sound s' := by
  refine ⟨fun r => ?_, h.base hsound⟩
  rw [(h.sizes r).1, (h.sizes r).2, h.gran r]
  exact ⟨(hsound.valid r).1, (h.limit r).trans_lt (hsound.valid r).2.1, (hsound.valid r).2.2⟩

lemma Shifted.trans {s'' : Store} (h : Shifted s s') (h' : Shifted s' s'') : Shifted s s'' :=
  ⟨h.shape.trans h'.shape, h.sizes.trans h'.sizes, fun r => (h'.flags r).trans (h.flags r),
    fun r => (h'.gran r).trans (h.gran r), fun r => (h'.limit r).trans (h.limit r),
    fun hs => h'.base (h.sound hs)⟩

/-- A resource whose base is changed, and whose limit is lowered. -/
lemma Shifted.modify {base limit : ℕ} (hlimit : limit ≤ (s r).limit)
    (hbase : Sound s → base < 2 ^ 64) :
    Shifted s (s.modify r fun a => { a with base, limit }) := by
  have hcases : ∀ q, s.modify r (fun a => { a with base, limit }) q = s q ∨
      q = r ∧ s.modify r (fun a => { a with base, limit }) q = { s r with base, limit } := by
    intro q
    by_cases hq : q = r
    · exact Or.inr ⟨hq, hq ▸ Store.modify_self⟩
    · exact Or.inl (Store.modify_of_ne hq)
  refine ⟨SameShape.modify rfl rfl, fun q => ?_, fun q => ?_, fun q => ?_, fun q => ?_, fun hs q => ?_⟩
  all_goals rcases hcases q with heq | ⟨rfl, heq⟩ <;> rw [heq]
  · exact ⟨rfl, rfl⟩
  · exact ⟨rfl, rfl⟩
  · exact hlimit
  · exact hs.base q
  · exact hbase hs

lemma Shifted.foldl {α : Type} {f : Store → α → Store} (hf : ∀ s a, Shifted s (f s a)) (l : List α)
    (s : Store) : Shifted s (l.foldl f s) := by
  induction l generalizing s with
  | nil => exact .refl s
  | cons a l ih => exact (hf s a).trans (ih _)

lemma applyLimit_shifted {limits : Constraints} (hlimits : ∀ m, (limits.get m).base < 2 ^ 64)
    (s : Store) (r : ResourceId) : Shifted s (applyLimit limits s r) := by
  rw [applyLimit]
  split_ifs
  · exact .refl s
  · rw [Constraints.of_eq]
    cases (s r).space with
    | none => exact .refl s
    | some m =>
      refine Shifted.modify ?_ fun hs => ?_
      · split_ifs <;> omega
      · have := hs.base r
        have := hlimits m
        split_ifs <;> omega

lemma moveToTop_shifted (s : Store) (r : ResourceId) : Shifted s (moveToTop s r) := by
  rw [moveToTop]
  split_ifs
  · exact .refl s
  · exact @Shifted.modify s r _ (s r).limit le_rfl fun hs =>
      (Word.alignDown_le (hs.valid r).2.2.1.le Word.add_lt).trans_lt Word.add_lt

/-- The regions start at zero. -/
lemma initialLimit_base (limits : Constraints) (r : ResourceId) (m : Space) :
    ((initialLimit s limits r).get m).base = (limits.get m).base := by
  have hlower : ∀ lim : Limit, (if (s r).limit < lim.limit then { lim with limit := (s r).limit }
      else lim).base = lim.base := fun lim => by split_ifs <;> rfl
  unfold initialLimit
  split_ifs <;> cases m <;> first | rfl | exact hlower _

/-- They stay at 64-bit addresses. -/
lemma constrainResources_base {dev : DeviceId} {limits : Constraints}
    (h : constrainResources t s depth dev (initialLimits t s dev) = some limits) (m : Space) :
    (limits.get m).base < 2 ^ 64 := by
  have hinitial : ∀ (l : List ResourceId) (limits : Constraints), (limits.get m).base = 0 →
      ((l.foldl (initialLimit s) limits).get m).base = 0 := by
    intro l
    induction l with
    | nil => exact fun _ h => h
    | cons r l ih =>
      exact fun limits hzero => ih _ ((initialLimit_base limits r m).trans hzero)
  have hwalk : ∀ (rs : List ResourceId) (limits : Constraints), (limits.get m).base < 2 ^ 64 →
      ((rs.foldl (constrainResource s) limits).get m).base < 2 ^ 64 := by
    intro rs
    induction rs with
    | nil => exact fun _ h => h
    | cons r rs ih =>
      refine fun limits hlt => ih _ ?_
      rw [constrainResource_get]
      split_ifs
      · rw [Limit.constrain]
        split_ifs
        · exact hlt
        · exact Word.add_lt
        · exact hlt
      · exact hlt
  rw [constrainResources_eq] at h
  obtain ⟨rs, -, rfl⟩ := Option.map_eq_some_iff.mp h
  have hzero : ((initialLimits t s dev).get m).base = 0 :=
    hinitial _ ⟨maximumSize, maximumSize, maximumSize⟩ (by cases m <;> rfl)
  exact hwalk rs _ (by omega)

lemma avoidFixedResources_shifted {rank : BusId → ℕ} {height : ℕ} {b : BusId} {dev : DeviceId}
    (h : DeviceTree t rank height) (hd : dev ∈ t.children b) (hdepth : height ≤ rank b + depth)
    (s : Store) : ∃ s', avoidFixedResources t depth s dev = some s' ∧ Shifted s s' := by
  obtain ⟨limits, hlimits⟩ := h.constrainResources_ends (s := s) hd hdepth (initialLimits t s dev)
  refine ⟨(t.resourceList dev).foldl (applyLimit limits) s, ?_, ?_⟩
  · rw [avoidFixedResources, ← initialLimits, hlimits]
    rfl
  · exact Shifted.foldl (applyLimit_shifted fun m => constrainResources_base hlimits m) _ s

/-- A memory resource of a domain is at the highest address that it may have. -/
def AtTop (s : Store) (r : ResourceId) : Prop :=
  (s r).has IORESOURCE_MEM = true → isFixed s r = false → (s r).base = resourceMax (s r)

lemma AtTop.moveToTop (h : AtTop s r ∨ q = r) : AtTop (moveToTop s q) r := by
  rw [Allocator.moveToTop]
  split_ifs with hskip
  · rcases h with h | rfl
    · exact h
    · intro hmem hfixed
      rw [isFixed] at hfixed
      rw [hmem, hfixed] at hskip
      exact absurd hskip (by decide)
  · by_cases hqr : q = r
    · subst hqr
      intro _ _
      rw [Store.modify_self]
      rfl
    · have hother : s.modify q (fun a => { a with base := resourceMax a }) r = s r :=
        Store.modify_of_ne (Ne.symm hqr)
      rw [AtTop, isFixed, hother]
      exact h.resolve_right hqr

lemma AtTop.foldl {l : List ResourceId} (h : AtTop s r ∨ r ∈ l) :
    AtTop (l.foldl Allocator.moveToTop s) r := by
  induction l generalizing s with
  | nil => exact h.resolve_right (by simp)
  | cons q l ih =>
    refine ih ?_
    rcases h with h | h
    · exact Or.inl (AtTop.moveToTop (Or.inl h))
    · rcases List.mem_cons.mp h with rfl | h
      · exact Or.inl (AtTop.moveToTop (Or.inr rfl))
      · exact Or.inr h

end ApuBios.Allocator
