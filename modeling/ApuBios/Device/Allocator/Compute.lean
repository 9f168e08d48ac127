import ApuBios.Device.Allocator.Tree

/-!
# The first pass

`compute_resources` leaves every window with the size, alignment and limit that the resources on
its bus need (`Sized`), unless the sum of their sizes wraps (`NoWrap`).
-/

namespace ApuBios.Allocator

open Packing

/-- What the types of the fields of resources allow. -/
def Valid (s : Store) : Prop :=
  ∀ r, (s r).size < 2 ^ 64 ∧ (s r).limit < 2 ^ 64 ∧ (s r).align < 64 ∧ (s r).gran < 64

/-- The window is as large and as aligned as the resources on its bus need, and ends no higher
than each of them may. -/
structure SizedAt (s : Store) (w : Window) (found : List ResourceId) : Prop where
  size : packResources s 0 (takeOrder s found) ≤ (s w.bridge).size
  fits : ∀ r ∈ movable s found, (s r).size ≠ 0 →
    (s r).align ≤ (s w.bridge).align ∧ (s w.bridge).limit ≤ (s r).limit

/-- The end of the resources on the bus, rounded to the granularity of the window, is a 64-bit
number. -/
def NoWrapAt (s : Store) (w : Window) (found : List ResourceId) : Prop :=
  Word.roundUp (packResources s 0 (takeOrder s found)) (s w.bridge).gran < 2 ^ 64

variable {t : Topology} {s s' s'' : Store} {w c : Window} {depth : ℕ} {r bridge : ResourceId}
  {found order : List ResourceId}

abbrev Sized (t : Topology) (s : Store) (depth : ℕ) (w : Window) : Prop :=
  Everywhere t s (SizedAt s) depth w

abbrev NoWrap (t : Topology) (s : Store) (depth : ℕ) (w : Window) : Prop :=
  Everywhere t s (NoWrapAt s) depth w

/-! ### Stores that differ little -/

/-- What the sizes of windows are computed from is the same. -/
structure Alike (a b : Resource) : Prop where
  size : b.size = a.size
  align : b.align = a.align
  gran : b.gran = a.gran
  limit : b.limit = a.limit

lemma Alike.of_eq {a b : Resource} (h : b = a) : Alike a b := by
  subst h
  exact ⟨rfl, rfl, rfl, rfl⟩

lemma Alike.sortKey (h : Alike (s r) (s' r)) : sortKey s' r = sortKey s r := by
  rw [Allocator.sortKey, h.align, h.size, Allocator.sortKey]

lemma SameOrder.of_alike (hs : SameShape s s') (h : ∀ r ∈ found, Alike (s r) (s' r)) :
    SameOrder found s s' := ⟨hs, fun r hr => (h r hr).sortKey⟩

lemma packResources_congr (hs : SameShape s s') {l : List ResourceId}
    (h : ∀ r ∈ l, Alike (s r) (s' r)) (x : ℕ) : packResources s' x l = packResources s x l :=
  pack_congr (fun _ r hr => place_congr (h r hr).size (h r hr).align (hs.has_eq (by decide) r))
    fun r hr => (h r hr).size

/-- The end of the resources on a bus depends on their sizes and alignments only. -/
lemma packResources_takeOrder_congr (hs : SameShape s s')
    (hfound : ∀ r ∈ found, Alike (s r) (s' r)) :
    packResources s' 0 (takeOrder s' found) = packResources s 0 (takeOrder s found) := by
  rw [(SameOrder.of_alike hs hfound).takeOrder_eq]
  exact packResources_congr hs
    (fun r hr => hfound r (mem_movable.mp (takeOrder_subset hr)).1) 0

lemma SizedAt.congr (h : SizedAt s w found) (hs : SameShape s s')
    (hfound : ∀ r ∈ found, Alike (s r) (s' r)) (hsize : (s' w.bridge).size = (s w.bridge).size)
    (halign : (s' w.bridge).align = (s w.bridge).align)
    (hlimit : (s' w.bridge).limit ≤ (s w.bridge).limit) : SizedAt s' w found := by
  refine ⟨?_, fun r hr hrs => ?_⟩
  · rw [packResources_takeOrder_congr hs hfound, hsize]
    exact h.size
  · rw [hs.movable_eq] at hr
    have halike := hfound r (mem_movable.mp hr).1
    rw [halike.size] at hrs
    rw [halike.align, halike.limit, halign]
    exact ⟨(h.fits r hr hrs).1, hlimit.trans (h.fits r hr hrs).2⟩

lemma NoWrapAt.congr (h : NoWrapAt s w found) (hs : SameShape s s')
    (hfound : ∀ r ∈ found, Alike (s r) (s' r)) (hgran : (s' w.bridge).gran = (s w.bridge).gran) :
    NoWrapAt s' w found := by
  rw [NoWrapAt, packResources_takeOrder_congr hs hfound, hgran]
  exact h

lemma Sized.congr (h : Sized t s depth w) (hs : SameShape s s') (hw : w.Typed)
    (halike : ∀ r ∈ region t s depth w, Alike (s r) (s' r)) : Sized t s' depth w :=
  h.imp hs hw fun _ _ _ hv hsub hat =>
    hat.congr hs (fun r hr => halike r (List.mem_cons_of_mem _ (hsub hr))) (halike _ hv).size
      (halike _ hv).align (halike _ hv).limit.le

lemma NoWrap.congr (h : NoWrap t s depth w) (hs : SameShape s s') (hw : w.Typed)
    (halike : ∀ r ∈ region t s depth w, Alike (s r) (s' r)) : NoWrap t s' depth w :=
  h.imp hs hw fun _ _ _ hv hsub hat =>
    hat.congr hs (fun r hr => halike r (List.mem_cons_of_mem _ (hsub hr))) (halike _ hv).gran

/-! ### Changing one resource -/

@[simp] lemma Store.modify_self {f : Resource → Resource} : s.modify r f r = f (s r) :=
  Function.update_self ..

@[simp] lemma Store.modify_of_ne {q : ResourceId} {f : Resource → Resource} (h : q ≠ r) :
    s.modify r f q = s q := Function.update_of_ne h ..

lemma SameShape.modify {f : Resource → Resource} (hindex : (f (s r)).index = (s r).index)
    (hflags : (f (s r)).flags &&& ~~~STATUS = (s r).flags &&& ~~~STATUS) :
    SameShape s (s.modify r f) := by
  intro q
  by_cases hq : q = r
  · subst hq
    rw [Store.modify_self]
    exact ⟨hindex, hflags⟩
  · rw [Store.modify_of_ne hq]
    exact ⟨rfl, rfl⟩

/-! ### The loop -/

lemma computeResource_zero {base : ℕ} (hsize : (s r).size = 0) :
    computeResource bridge r (s, base) = (s, base) := if_pos hsize

private lemma modify_align : (if (s r).align > (s bridge).align then
    s.modify bridge fun b => { b with align := (s r).align } else s) =
      s.modify bridge fun b => { b with align := max b.align (s r).align } := by
  split_ifs with h
  · rw [Store.modify, Store.modify, max_eq_right h.le]
  · rw [Store.modify, max_eq_left (not_lt.mp h), Function.update_eq_self]

private lemma modify_limit : (if (s bridge).limit > (s r).limit then
    s.modify bridge fun b => { b with limit := (s r).limit } else s) =
      s.modify bridge fun b => { b with limit := min b.limit (s r).limit } := by
  split_ifs with h
  · rw [Store.modify, Store.modify, min_eq_right (le_of_lt h)]
  · rw [Store.modify, min_eq_left (not_lt.mp h), Function.update_eq_self]

/-- What one round does to the bridge, to the resource, and to the base. -/
lemma computeResource_eq (base : ℕ) (hsize : (s r).size ≠ 0) (hne : r ≠ bridge) :
    (computeResource bridge r (s, base)).1 bridge = { s bridge with
      align := max (s bridge).align (s r).align, limit := min (s bridge).limit (s r).limit } ∧
    (computeResource bridge r (s, base)).1 r = { s r with
      base := round (if (s r).has IORESOURCE_IO then skipAliases base else base) (s r).align } ∧
    (∀ q, q ≠ bridge → q ≠ r → (computeResource bridge r (s, base)).1 q = s q) ∧
    (computeResource bridge r (s, base)).2 =
      Word.add 64 (round (if (s r).has IORESOURCE_IO then skipAliases base else base) (s r).align)
        (s r).size := by
  simp only [computeResource, if_neg hsize, modify_align, modify_limit]
  refine ⟨?_, ?_, fun q hq hqr => ?_, ?_⟩
  · simp only [Store.modify_of_ne hne.symm, Store.modify_self, Store.modify_of_ne hne]
  · simp only [Store.modify_self, Store.modify_of_ne hne]
  · rw [Store.modify_of_ne hqr, Store.modify_of_ne hq, Store.modify_of_ne hq]
  · simp only [Store.modify_of_ne hne]

lemma computeResource_sameOrder {base : ℕ} (hbridge : bridge ∉ found) (hr : r ∈ found) :
    SameOrder found s (computeResource bridge r (s, base)).1 := by
  have hne : r ≠ bridge := fun h => hbridge (h ▸ hr)
  by_cases hsize : (s r).size = 0
  · rw [computeResource_zero hsize]
    exact .refl _ _
  obtain ⟨hb, hr', hother, -⟩ := computeResource_eq base hsize hne
  refine ⟨fun q => ?_, fun q hq => ?_⟩
  · by_cases hqb : q = bridge
    · rw [hqb, hb]
      exact ⟨rfl, rfl⟩
    · by_cases hqr : q = r
      · rw [hqr, hr']
        exact ⟨rfl, rfl⟩
      · rw [hother q hqb hqr]
        exact ⟨rfl, rfl⟩
  · have hqb : q ≠ bridge := fun h => hbridge (h ▸ hq)
    by_cases hqr : q = r
    · rw [sortKey, hqr, hr']
      rfl
    · rw [sortKey, hother q hqb hqr, sortKey]

/-- A resource that differs in its base only. -/
structure Moved (a b : Resource) : Prop where
  size : b.size = a.size
  limit : b.limit = a.limit
  flags : b.flags = a.flags
  index : b.index = a.index
  align : b.align = a.align
  gran : b.gran = a.gran

lemma Moved.refl (a : Resource) : Moved a a := ⟨rfl, rfl, rfl, rfl, rfl, rfl⟩

/-- After the resources `p`, starting from the store `s₀`. -/
structure LoopInv (s₀ : Store) (bridge : ResourceId) (p : List ResourceId) (x : Store × ℕ) :
    Prop where
  moved : ∀ q, q ≠ bridge → Moved (s₀ q) (x.1 q)
  frame : ∀ q, q ≠ bridge → q ∉ p → x.1 q = s₀ q
  bridge_eq : (x.1 bridge).base = (s₀ bridge).base ∧ (x.1 bridge).flags = (s₀ bridge).flags ∧
    (x.1 bridge).index = (s₀ bridge).index ∧ (x.1 bridge).gran = (s₀ bridge).gran
  align_le : (s₀ bridge).align ≤ (x.1 bridge).align
  align_lt : (x.1 bridge).align < 64
  limit_le : (x.1 bridge).limit ≤ (s₀ bridge).limit
  fits : ∀ r ∈ p, (s₀ r).size ≠ 0 →
    (s₀ r).align ≤ (x.1 bridge).align ∧ (x.1 bridge).limit ≤ (s₀ r).limit
  base_eq : packResources s₀ 0 p < 2 ^ 64 → x.2 = packResources s₀ 0 p

lemma LoopInv.step {s₀ : Store} {p : List ResourceId} {x : Store × ℕ} (h : LoopInv s₀ bridge p x)
    (hvalid : Valid s₀) (hne : r ≠ bridge) :
    LoopInv s₀ bridge (p ++ [r]) (computeResource bridge r x) := by
  obtain ⟨s, base⟩ := x
  have hr : Moved (s₀ r) (s r) := h.moved r hne
  have hflagsEq : (s r).has IORESOURCE_IO = (s₀ r).has IORESOURCE_IO := by
    rw [Resource.has, hr.flags, Resource.has]
  have hpack : packResources s₀ 0 (p ++ [r]) =
      place s₀ (packResources s₀ 0 p) r + (s₀ r).size := by
    rw [packResources, pack_append]
    rfl
  by_cases hsize : (s r).size = 0
  · rw [computeResource_zero hsize]
    have hsize₀ : (s₀ r).size = 0 := hr.size ▸ hsize
    refine { h with frame := fun q hq hqp => h.frame q hq fun hmem => hqp (by simp [hmem])
                    fits := fun q hq hqs => ?_
                    base_eq := fun hlt => ?_ }
    · rcases List.mem_append.mp hq with hq | hq
      · exact h.fits q hq hqs
      · exact absurd (List.mem_singleton.mp hq ▸ hsize₀) hqs
    · rw [hpack, place, if_pos hsize₀, hsize₀, Nat.add_zero] at hlt ⊢
      exact h.base_eq hlt
  obtain ⟨hb, hr', hother, hbase⟩ := computeResource_eq base hsize hne
  have hmax := congrArg Resource.align hb
  have hmin := congrArg Resource.limit hb
  simp only [hr.align, hr.limit] at hmax hmin
  refine ⟨fun q hq => ?_, fun q hq hqp => ?_, ?_, ?_, ?_, ?_, fun q hq hqs => ?_, fun hlt => ?_⟩
  · by_cases hqr : q = r
    · rw [hqr, hr']
      exact ⟨hr.size, hr.limit, hr.flags, hr.index, hr.align, hr.gran⟩
    · rw [hother q hq hqr]
      exact h.moved q hq
  · rw [hother q hq fun hqr => hqp (by simp [hqr])]
    exact h.frame q hq fun hmem => hqp (by simp [hmem])
  · rw [hb]
    exact h.bridge_eq
  · rw [hmax]
    exact h.align_le.trans (le_max_left _ _)
  · rw [hmax]
    exact max_lt h.align_lt (hvalid r).2.2.1
  · rw [hmin]
    exact (min_le_left _ _).trans h.limit_le
  · rw [hmax, hmin]
    rcases List.mem_append.mp hq with hq | hq
    · exact ⟨(h.fits q hq hqs).1.trans (le_max_left _ _),
        (min_le_left _ _).trans (h.fits q hq hqs).2⟩
    · rw [List.mem_singleton.mp hq]
      exact ⟨le_max_right _ _, min_le_right _ _⟩
  · have hle : packResources s₀ 0 p ≤ place s₀ (packResources s₀ 0 p) r := le_place
    rw [hpack] at hlt ⊢
    have hx : base = packResources s₀ 0 p := h.base_eq (by omega)
    have hplace : place s base r = place s₀ (packResources s₀ 0 p) r := by
      rw [place_congr hr.size hr.align hflagsEq, hx]
    rw [hbase, round_skipAliases_eq hsize (hr.align ▸ (hvalid r).2.2.1) (by omega), hplace,
      hr.size, Word.add_eq hlt]

lemma LoopInv.foldl {s₀ : Store} (hvalid : Valid s₀) (hbridge : bridge ∉ order) :
    LoopInv s₀ bridge order (order.foldl (fun x r => computeResource bridge r x) (s₀, 0)) := by
  induction order using List.reverseRecOn with
  | nil =>
    exact ⟨fun _ _ => .refl _, fun _ _ _ => rfl, ⟨rfl, rfl, rfl, rfl⟩, le_rfl, (hvalid bridge).2.2.1,
      le_rfl, by simp,
      fun _ => rfl⟩
  | append_singleton p r ih =>
    rw [List.foldl_append, List.foldl_cons, List.foldl_nil]
    simp only [List.mem_append, List.mem_singleton, not_or] at hbridge
    exact (ih hbridge.1).step hvalid (Ne.symm hbridge.2)

/-! ### The recursion -/

/-- The windows have no base yet, as `new_resource` leaves them. -/
def BaseZero (t : Topology) (s : Store) (depth : ℕ) (w : Window) : Prop :=
  Everywhere t s (fun v _ => (s v.bridge).base = 0) depth w

/-- What `compute_resources` does to the resources `r` of a list of regions, and what it achieves
for each of the windows `ws`. -/
structure Computed (t : Topology) (s s' : Store) (depth : ℕ) (ws : List Window) : Prop where
  shape : SameShape s s'
  frame : ∀ r, (∀ w ∈ ws, r ∉ region t s depth w) → s' r = s r
  valid : Valid s'
  grow : ∀ r, (s r).align ≤ (s' r).align ∧ (s' r).gran = (s r).gran
  sized : ∀ w ∈ ws, NoWrap t s' depth w → Sized t s' depth w

lemma BaseZero.congr (h : BaseZero t s depth w) (hs : SameShape s s') (hw : w.Typed)
    (heq : ∀ r ∈ region t s depth w, s' r = s r) : BaseZero t s' depth w :=
  h.imp hs hw fun v _ _ hv _ hzero => by rw [heq _ hv, hzero]

/-- Windows whose regions are apart are computed one by one. -/
lemma forWindows_computed (ih : ∀ {s : Store} {w : Window}, IsTree t s depth w → w.Typed →
      Valid s → BaseZero t s depth w →
      ∃ s', computeResources t depth w s = some s' ∧ Computed t s s' depth [w])
    (ws : List Window) (htyped : ∀ w ∈ ws, w.Typed) (htree : ∀ w ∈ ws, IsTree t s depth w)
    (hvalid : Valid s) (hzero : ∀ w ∈ ws, BaseZero t s depth w)
    (hdisj : ws.Pairwise fun w w' => (region t s depth w).Disjoint (region t s depth w')) :
    ∃ s', forWindows (computeResources t depth) (ws.map some) s = some s' ∧
      Computed t s s' depth ws := by
  induction ws generalizing s with
  | nil => exact ⟨s, rfl, .refl s, fun _ _ => rfl, hvalid, fun _ => ⟨le_rfl, rfl⟩, by simp⟩
  | cons w ws ihws =>
    obtain ⟨hapart, hdisj⟩ := List.pairwise_cons.mp hdisj
    have hw := htyped w (by simp)
    obtain ⟨s₁, heq, h₁⟩ := ih (htree w (by simp)) hw hvalid (hzero w (by simp))
    have hregion : ∀ v ∈ ws, region t s₁ depth v = region t s depth v :=
      fun v hv => region_congr h₁.shape (htyped v (by simp [hv]))
    have hsame : ∀ v ∈ ws, ∀ r ∈ region t s depth v, s₁ r = s r := fun v hv r hr =>
      h₁.frame r (by simpa using fun hrw => hapart v hv hrw hr)
    obtain ⟨s₂, heq₂, h₂⟩ := ihws (fun v hv => htyped v (by simp [hv]))
      (fun v hv => (htree v (by simp [hv])).congr h₁.shape (htyped v (by simp [hv]))) h₁.valid
      (fun v hv => (hzero v (by simp [hv])).congr h₁.shape (htyped v (by simp [hv])) (hsame v hv))
      (hdisj.imp_of_mem fun {v v'} hv hv' h => by rwa [hregion v hv, hregion v' hv'])
    -- the first window stays as it is while the others are computed
    have hkeep : ∀ r ∈ region t s₁ depth w, Alike (s₁ r) (s₂ r) := by
      intro r hr
      rw [region_congr h₁.shape hw] at hr
      refine .of_eq (h₂.frame r fun v hv hrv => ?_)
      rw [hregion v hv] at hrv
      exact hapart v hv hr hrv
    refine ⟨s₂, by rw [List.map_cons, forWindows, heq, Option.bind_some, heq₂],
      h₁.shape.trans h₂.shape, fun r hr => ?_, h₂.valid, fun r => ?_, fun v hv hnowrap => ?_⟩
    · rw [h₂.frame r fun v hv => by rw [hregion v hv]; exact hr v (by simp [hv])]
      exact h₁.frame r (by simpa using hr w (by simp))
    · exact ⟨(h₁.grow r).1.trans (h₂.grow r).1, (h₂.grow r).2.trans (h₁.grow r).2⟩
    · rcases List.mem_cons.mp hv with rfl | hv
      · refine (h₁.sized v (by simp) ?_).congr h₂.shape hw hkeep
        refine hnowrap.congr h₂.shape.symm hw fun r hr => ?_
        have halike := hkeep r (region_congr h₂.shape hw ▸ hr)
        exact ⟨halike.size.symm, halike.align.symm, halike.gran.symm, halike.limit.symm⟩
      · exact h₂.sized v hv hnowrap

/-- What is left after the loop once the size of the bridge is set. -/
private lemma loop_computed {s₀ s₂ : Store} {base : ℕ} (hvalid : Valid s₀)
    (hbase : (s₀ w.bridge).base = 0) (hnodup : found.Nodup)
    (h : LoopInv s₀ w.bridge (takeOrder s₀ found) (s₂, base)) {s' : Store}
    (hs' : s' = s₂.modify w.bridge fun b => { b with
      size := Word.sub 64 (round base b.gran) (round b.base b.align) }) :
    SameShape s₀ s' ∧ (∀ r, r ≠ w.bridge → Moved (s₀ r) (s' r)) ∧
      (∀ r, r ≠ w.bridge → r ∉ found → s' r = s₀ r) ∧ Valid s' ∧
      (∀ r, (s₀ r).align ≤ (s' r).align ∧ (s' r).gran = (s₀ r).gran) ∧
      (w.bridge ∉ found → NoWrapAt s' w found → SizedAt s' w found) := by
  have hmem : ∀ r ∈ takeOrder s₀ found, r ∈ found :=
    fun r hr => (mem_movable.mp (takeOrder_subset hr)).1
  have hmoved : ∀ r, r ≠ w.bridge → Moved (s₀ r) (s' r) := fun r hr => by
    rw [hs', Store.modify_of_ne hr]
    exact h.moved r hr
  obtain ⟨hbridgeBase, hflags, hindex, hgran⟩ := h.bridge_eq
  have hbridge : s' w.bridge = { s₂ w.bridge with
      size := Word.sub 64 (round base (s₂ w.bridge).gran)
        (round (s₂ w.bridge).base (s₂ w.bridge).align) } := by
    rw [hs', Store.modify_self]
  have hshape : SameShape s₀ s' := by
    intro r
    by_cases hr : r = w.bridge
    · rw [hr, hbridge]
      exact ⟨hindex, congrArg (· &&& ~~~STATUS) hflags⟩
    · exact ⟨(hmoved r hr).index, congrArg (· &&& ~~~STATUS) (hmoved r hr).flags⟩
  have halign : (s' w.bridge).align = (s₂ w.bridge).align := by rw [hbridge]
  have hlimit : (s' w.bridge).limit = (s₂ w.bridge).limit := by rw [hbridge]
  have hgran' : (s' w.bridge).gran = (s₀ w.bridge).gran := by
    rw [hbridge]
    exact hgran
  refine ⟨hshape, hmoved, fun r hr hfound => ?_, fun r => ?_, fun r => ?_, fun hout hnowrap => ?_⟩
  · rw [hs', Store.modify_of_ne hr]
    exact h.frame r hr fun hmem' => hfound (hmem r hmem')
  · by_cases hr : r = w.bridge
    · rw [hr, hlimit, halign, hgran']
      refine ⟨?_, h.limit_le.trans_lt (hvalid w.bridge).2.1, h.align_lt, (hvalid w.bridge).2.2.2⟩
      rw [hbridge]
      exact Word.sub_lt
    · rw [(hmoved r hr).size, (hmoved r hr).limit, (hmoved r hr).align, (hmoved r hr).gran]
      exact hvalid r
  · by_cases hr : r = w.bridge
    · rw [hr, halign]
      exact ⟨h.align_le, hgran'⟩
    · exact ⟨(hmoved r hr).align.ge, (hmoved r hr).gran⟩
  · have hne : ∀ r ∈ found, r ≠ w.bridge := fun r hr heq => hout (heq ▸ hr)
    have halike : ∀ r ∈ found, Alike (s₀ r) (s' r) := fun r hr =>
      have hm := hmoved r (hne r hr)
      ⟨hm.size, hm.align, hm.gran, hm.limit⟩
    have hpack := packResources_takeOrder_congr hshape halike
    refine ⟨?_, fun r hr hsize => ?_⟩
    · have hlt : Word.roundUp (packResources s₀ 0 (takeOrder s₀ found)) (s₀ w.bridge).gran <
          2 ^ 64 := by
        rw [← hpack, ← hgran']
        exact hnowrap
      have hend : base = packResources s₀ 0 (takeOrder s₀ found) :=
        h.base_eq (Word.le_roundUp.trans_lt hlt)
      have hsize : (s' w.bridge).size =
          Word.roundUp (packResources s₀ 0 (takeOrder s₀ found)) (s₀ w.bridge).gran := by
        rw [hbridge]
        simp only
        rw [hbridgeBase, hbase, hgran, round_zero h.align_lt, hend,
          round_eq (hvalid w.bridge).2.2.2 hlt, Word.sub_eq (Nat.zero_le _) hlt, Nat.sub_zero]
      rw [hpack, hsize]
      exact Word.le_roundUp
    · rw [hshape.movable_eq] at hr
      have hal := halike r (mem_movable.mp hr).1
      rw [hal.size] at hsize
      rw [hal.align, hal.limit, halign, hlimit]
      exact h.fits r ((mem_takeOrder hnodup).mpr hr) hsize

/-- The first pass ends, changes nothing outside the tree, and sizes its windows. -/
theorem computeResources_computed (htree : IsTree t s depth w) (hw : w.Typed) (hvalid : Valid s)
    (hzero : BaseZero t s depth w) :
    ∃ s', computeResources t depth w s = some s' ∧ Computed t s s' depth [w] := by
  induction depth generalizing s w with
  | zero => exact htree.elim
  | succ depth ih =>
    obtain ⟨hnode, hchildren⟩ := htree
    obtain ⟨found, hfound⟩ := Option.isSome_iff_exists.mp hnode.found
    have hnodup := hnode.nodup found hfound
    obtain ⟨s₁, heq, h₁⟩ := forWindows_computed (fun ht hw hv hz => ih ht hw hv hz)
      (w.childWindows t s) (fun c hc => hw.child hc) hchildren hvalid (fun c hc => hzero.2 c hc)
      hnode.disjoint
    have hbridge : w.bridge ∉ found := fun h => hnode.bridge (mem_below_of_found hfound h)
    have hbelow := below_succ hfound
    have hbase : (s₁ w.bridge).base = 0 := by
      rw [h₁.frame w.bridge fun c hc hr => hnode.bridge (mem_below_of_child hc hr)]
      exact hzero.1 found hfound
    have hfound₁ : w.resources t (depth + 1) s₁ = some found :=
      (Window.resources_congr h₁.shape hw).trans hfound
    have hloop : forLargest t (depth + 1) w Prod.fst (computeResource w.bridge) (s₁, 0) =
        some ((takeOrder s₁ found).foldl (fun x r => computeResource w.bridge r x) (s₁, 0)) :=
      forLargest_eq hw hfound₁ hnodup fun y r hr hy =>
        hy.trans (computeResource_sameOrder hbridge (mem_movable.mp hr).1)
    have hinv : LoopInv s₁ w.bridge (takeOrder s₁ found)
        ((takeOrder s₁ found).foldl (fun x r => computeResource w.bridge r x) (s₁, 0)) :=
      LoopInv.foldl h₁.valid fun h => hbridge (mem_movable.mp (takeOrder_subset h)).1
    generalize (takeOrder s₁ found).foldl (fun x r => computeResource w.bridge r x) (s₁, 0) = x
      at hloop hinv
    obtain ⟨s₂, base⟩ := x
    obtain ⟨s', hs'⟩ : ∃ s', s' = s₂.modify w.bridge fun b => { b with
      size := Word.sub 64 (round base b.gran) (round b.base b.align) } := ⟨_, rfl⟩
    obtain ⟨hshape, hmoved, hframe, hvalid', hgrow, hsized⟩ :=
      loop_computed h₁.valid hbase hnodup hinv hs'
    refine ⟨s', ?_, h₁.shape.trans hshape, fun r hr => ?_, hvalid', fun r => ?_, ?_⟩
    · have hstart : round (s w.bridge).base (s w.bridge).align = 0 := by
        rw [hzero.1 found hfound, round_zero (hvalid w.bridge).2.2.1]
      rw [computeResources, hstart, hnode.children_eq, heq, Option.bind_some, hloop, hs']
      rfl
    · have hr' : r ≠ w.bridge ∧ r ∉ below t s (depth + 1) w := by simpa [region] using hr
      rw [hframe r hr'.1 fun h => hr'.2 (mem_below_of_found hfound h)]
      exact h₁.frame r fun c hc h => hr'.2 (mem_below_of_child hc h)
    · exact ⟨(h₁.grow r).1.trans (hgrow r).1, (hgrow r).2.trans (h₁.grow r).2⟩
    · intro v hv hnowrap
      obtain rfl := List.mem_singleton.mp hv
      have hshape' := h₁.shape.trans hshape
      obtain ⟨hat, hbelowWrap⟩ := hnowrap
      rw [Window.resources_congr hshape' hw] at hat
      rw [Window.childWindows_congr hshape' hw] at hbelowWrap
      refine ⟨fun found' hfound' => ?_, fun c hc => ?_⟩
      · rw [Window.resources_congr hshape' hw, hfound] at hfound'
        obtain rfl := Option.some.inj hfound'
        exact hsized hbridge (hat found hfound)
      · rw [Window.childWindows_congr hshape' hw] at hc
        have hc' := hw.child hc
        have hkeep : ∀ r ∈ region t s depth c, Moved (s₁ r) (s' r) := fun r hr =>
          hmoved r fun h => hnode.bridge (h ▸ mem_below_of_child hc hr)
        have hnowrap₁ : NoWrap t s₁ depth c :=
          NoWrap.congr (hbelowWrap c hc) hshape.symm hc' fun r hr => by
            have hm := hkeep r (region_congr hshape' hc' ▸ hr)
            exact ⟨hm.size.symm, hm.align.symm, hm.gran.symm, hm.limit.symm⟩
        refine (h₁.sized c hc hnowrap₁).congr hshape hc' fun r hr => ?_
        have hm := hkeep r (region_congr h₁.shape hc' ▸ hr)
        exact ⟨hm.size, hm.align, hm.gran, hm.limit⟩

end ApuBios.Allocator
