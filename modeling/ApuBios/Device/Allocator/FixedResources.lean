import ApuBios.Device.Allocator.Assigned

/-!
# Clear of fixed resources

After a run of `dev_configure` that goes well, no resource below a domain has an address of a fixed
resource of the domain, if no step of `avoid_fixed_resources` goes wrong and no memory window is moved
below what that function has left of it (`devConfigure_clear`).
-/

namespace ApuBios.Allocator

open Transition

variable {t : Topology} {s s' s₁ s₂ : Store} {rank : BusId → ℕ} {height depth : ℕ} {root : BusId}
  {d dev : DeviceId} {w c : Window} {r q : ResourceId} {found : List ResourceId} {low high : ℕ}

/-- No resource below a domain that counts as assigned has an address of a fixed resource of its
space on the domain or an enabled device behind it. -/
def ClearBelow (t : Topology) (root : BusId) (s : Store) : Prop :=
  ∀ d ∈ domains t root, ∀ b ∈ t.linkList d, ∀ r, BelowBus t b r → isFixed s r = false →
    (s r).Occupies → ∀ e, Behind t d e → ∀ f ∈ t.resourceList e, ∀ m, FixedIn s m f →
      (s r).space = some m → (s r).Apart (s f)

/-- No memory window with something to place is moved below where it starts. -/
def Stays (t : Topology) (depth : ℕ) (root : BusId) (s : Store) : Prop :=
  ∀ w ∈ (allWindows t s root).reduceOption, (s w.bridge).has IORESOURCE_MEM = true →
    (∃ r ∈ below t s depth w, (s r).size ≠ 0) → (s w.bridge).base ≤ resourceMax (s w.bridge)

instance (t : Topology) (depth : ℕ) (root : BusId) (s : Store) : Decidable (Stays t depth root s) :=
  inferInstanceAs (Decidable (∀ w ∈ _, _ → _ → _))

/-! ### Before the second pass -/

lemma foldl_applyLimit_other (limits : Constraints) {l : List ResourceId} (h : r ∉ l ∨ isFixed s r = true) :
    l.foldl (applyLimit limits) s r = s r := by
  induction l generalizing s with
  | nil => rfl
  | cons q l ih =>
    have hstep : applyLimit limits s q r = s r := by
      by_cases hqr : q = r
      · subst hqr
        have hfixed : (s q).has IORESOURCE_FIXED = true := h.resolve_left (by simp)
        rw [applyLimit, if_pos hfixed]
      · rw [applyLimit_eq, Store.modify_of_ne (Ne.symm hqr)]
    rw [List.foldl_cons, ih, hstep]
    rw [isFixed, hstep]
    exact h.imp_left fun hr hl => hr (List.mem_cons_of_mem _ hl)

/-- `avoid_fixed_resources` changes windows of the domain only. -/
lemma avoidFixedResources_other (heq : avoidFixedResources t depth s dev = some s')
    (h : r ∉ t.resourceList dev ∨ isFixed s r = true) : s' r = s r := by
  obtain ⟨limits, -, rfl⟩ := Option.map_eq_some_iff.mp heq
  exact foldl_applyLimit_other limits h

lemma Resource.space_congr {a b : Resource} (h : a.flags = b.flags) : a.space = b.space := by
  cases a
  cases b
  cases h
  rfl

/-- What is clear stays so as long as windows and fixed resources are not touched. -/
lemma ClearOfFixed.congr (h : ClearOfFixed t s s₁ dev) (hflags : ∀ r, (s' r).flags = (s r).flags)
    (hfixed : ∀ f, isFixed s f = true → s' f = s f)
    (hwindow : ∀ r ∈ t.resourceList dev, (s' r).base = (s₁ r).base ∧ (s' r).limit = (s₁ r).limit) :
    ClearOfFixed t s' s' dev := by
  intro r hr hmovable m hm e he f hf hfm
  have hfix : isFixed s f = true := by
    have := hfm.1
    rwa [Resource.has, hflags] at this
  rw [Resource.has, hflags] at hmovable
  rw [Resource.space_congr (hflags r)] at hm
  rw [FixedIn, hfixed f hfix] at hfm
  rw [(hwindow r hr).1, (hwindow r hr).2, hfixed f hfix]
  exact h r hr hmovable m hm e he f hf hfm

/-- After the windows of all domains have been made smaller, they are clear. -/
lemma foldlM_clearOfFixed (h : DeviceTree t rank height) {l : List DeviceId} (hnodup : l.Nodup)
    (heq : l.foldlM (avoidFixedResources t depth) s = some s')
    (hgood : Admits (avoidFixedResources t depth) (fun s d => Avoidable t s depth d) s l)
    (hflags : ∀ s d, d ∈ l → ∀ s' ∈ avoidFixedResources t depth s d, ∀ r, (s' r).flags = (s r).flags) :
    (∀ r, (s' r).flags = (s r).flags) ∧ (∀ f, isFixed s f = true → s' f = s f) ∧
      (∀ r, (∀ d ∈ l, r ∉ t.resourceList d) → s' r = s r) ∧ ∀ d ∈ l, ClearOfFixed t s' s' d := by
  induction l generalizing s with
  | nil =>
    obtain rfl := Option.some.inj heq
    exact ⟨fun _ => rfl, fun _ _ => rfl, fun _ _ => rfl, by simp⟩
  | cons d l ih =>
    obtain ⟨hd, hnodup⟩ := List.nodup_cons.mp hnodup
    rw [List.foldlM_cons] at heq
    obtain ⟨s₁, heq₁, heq⟩ := Option.bind_eq_some_iff.mp heq
    obtain ⟨havoid, hgood⟩ := hgood
    obtain ⟨hflags', hfixed, hother, hclear⟩ := ih hnodup heq (hgood s₁ heq₁)
      fun s d hd => hflags s d (List.mem_cons_of_mem _ hd)
    have hflags₁ := hflags s d (by simp) s₁ heq₁
    have hfixed₁ : ∀ f, isFixed s f = true → s' f = s f := fun f hf => by
      have hsame := avoidFixedResources_other heq₁ (Or.inr hf)
      rw [hfixed f (by rwa [isFixed, hsame]), hsame]
    refine ⟨fun r => (hflags' r).trans (hflags₁ r), hfixed₁, fun r hr => ?_, fun e he => ?_⟩
    · rw [hother r fun e he => hr e (by simp [he])]
      exact avoidFixedResources_other heq₁ (Or.inl (hr d (by simp)))
    · rcases List.mem_cons.mp he with rfl | he
      · -- the other domains have other windows
        refine (havoid.clearOfFixed (h.resources_nodup e) heq₁).congr
          (fun r => (hflags' r).trans (hflags₁ r)) hfixed₁ fun r hr => ?_
        rw [hother r fun e' he' hr' => hd (h.owner hr hr' ▸ he')]
        exact ⟨rfl, rfl⟩
      · exact hclear e he

lemma moveToTop_other (h : isFixed s r = true) (q : ResourceId) : moveToTop s q r = s r := by
  rw [moveToTop]
  split_ifs with hskip
  · rfl
  · refine Store.modify_of_ne fun hrq => ?_
    rw [isFixed, hrq] at h
    rw [h, Bool.or_true] at hskip
    exact hskip rfl

/-- The base of a resource is moved to the top or left. -/
lemma moveToTop_base (s : Store) (q r : ResourceId) :
    (moveToTop s q r).base = (s r).base ∨
      (s r).has IORESOURCE_MEM = true ∧ (moveToTop s q r).base = resourceMax (s r) := by
  rw [moveToTop]
  split_ifs with hskip
  · exact Or.inl rfl
  · by_cases hqr : q = r
    · subst hqr
      rw [Bool.or_eq_true, not_or] at hskip
      exact Or.inr ⟨by simpa using hskip.1, by rw [Store.modify_self]⟩
    · exact Or.inl (congrArg Resource.base (Store.modify_of_ne (Ne.symm hqr)))

lemma foldl_moveToTop_fixed {l : List ResourceId} (h : isFixed s r = true) :
    l.foldl moveToTop s r = s r := by
  induction l generalizing s with
  | nil => rfl
  | cons q l ih =>
    have hstep := moveToTop_other h q
    rw [List.foldl_cons, ih (by rwa [isFixed, hstep]), hstep]

lemma foldl_moveToTop_base (l : List ResourceId) (s : Store) (r : ResourceId) :
    (l.foldl moveToTop s r).base = (s r).base ∨
      (s r).has IORESOURCE_MEM = true ∧ (l.foldl moveToTop s r).base = resourceMax (s r) := by
  induction l generalizing s with
  | nil => exact Or.inl rfl
  | cons q l ih =>
    have hshifted := moveToTop_shifted s q
    have hlimit : (moveToTop s q r).limit = (s r).limit := by
      rw [moveToTop]
      split_ifs
      · rfl
      · by_cases hqr : q = r
        · rw [hqr, Store.modify_self]
        · rw [Store.modify_of_ne (Ne.symm hqr)]
    have hmax : resourceMax (moveToTop s q r) = resourceMax (s r) := by
      rw [resourceMax, hlimit, (hshifted.sizes r).1, (hshifted.sizes r).2, resourceMax]
    rcases ih (moveToTop s q) with hbase | ⟨hmem, hbase⟩
    · rw [List.foldl_cons, hbase]
      exact moveToTop_base s q r
    · rw [Resource.has, hshifted.flags] at hmem
      rw [List.foldl_cons, hbase, hmax]
      exact Or.inr ⟨hmem, rfl⟩

/-! ### After the second pass -/

/-- What is behind the windows on a bus is where the windows are. -/
lemma Everywhere.within (htree : IsTree t s depth w) (hbridged : Bridged t s depth w)
    (hlaid : Everywhere t s (LaidOutAt t s) depth w) (hfair : Everywhere t s (FairAt t s) depth w)
    (hbus : ∀ found ∈ w.resources t depth s, ∀ r ∈ movable s found, (s r).Occupies →
      low ≤ (s r).base ∧ (s r).base + (s r).size ≤ high) :
    Everywhere t s (fun _ found => ∀ r ∈ movable s found, (s r).Occupies →
      low ≤ (s r).base ∧ (s r).base + (s r).size ≤ high) depth w := by
  induction depth generalizing w with
  | zero => trivial
  | succ depth ih =>
    refine ⟨hbus, fun c hc => ?_⟩
    refine ih (htree.2 c hc) (hbridged.2 c hc) (hlaid.2 c hc) (hfair.2 c hc)
      fun found' hfound' r hr hocc => ?_
    obtain ⟨found, hfound⟩ := Option.isSome_iff_exists.mp htree.1.found
    have hcm := hbridged.1 found hfound c hc
    obtain ⟨hlow, hhigh⟩ := (hfair.1 found hfound).inside c hc hcm r
      ⟨depth, found', hfound', (mem_movable.mp hr).1⟩ (mem_movable.mp hr).2 hocc
    have hsize := hocc.1
    obtain ⟨hlow', hhigh'⟩ := hbus found hfound c.bridge hcm
      ⟨by omega, (hlaid.1 found hfound).windows c hc (mem_movable.mp hcm).1⟩
    omega

lemma Resource.space_of_kind {a : Resource} (ha : IsKind a.kind) :
    a.space = if spaceOf a.kind = IO_MASK then some .io else some .mem := by
  have hmem : ∀ type, a.matches MEM_MASK type = (a.kind &&& MEM_MASK == type) := fun type => by
    rw [Resource.matches, a.kind_and (by decide)]
  have hio : ∀ type, a.matches IO_MASK type = (a.kind &&& IO_MASK == type) := fun type => by
    rw [Resource.matches, a.kind_and (by decide)]
  rw [Resource.space, hmem, hmem, hio]
  rcases ha with h | h | h <;> rw [h] <;> rfl

/-- What is behind the window of a domain is in its space. -/
lemma IsDomainWindow.space_eq (hw : IsDomainWindow t s d w) (hs : PciResources t s)
    (hr : r ∈ below t s depth w) : (s r).space = (s w.bridge).space := by
  have hmatches := (belowBus_of_below hr).2
  obtain ⟨hkind, hwide⟩ := hw.wide_of_matches hmatches
  obtain ⟨hkind', hspace⟩ := (hwide.matches_iff (hkind.imp_right Or.inl) hs).mp hmatches
  rw [Resource.space_of_kind hkind', hspace, Resource.space_of_kind (hkind.imp_right Or.inl)]

lemma SameShape.space_eq (hs : SameShape s s') (r : ResourceId) : (s' r).space = (s r).space := by
  rw [Resource.space, hs.matches_eq (by decide), hs.matches_eq (by decide), hs.matches_eq (by decide),
    Resource.space]

lemma fixedIn_congr {m : Space} (hs : SameShape s s') (hsizes : SameSizes s s') :
    FixedIn s' m r ↔ FixedIn s m r := by
  rw [FixedIn, hs.has_eq (by decide), (hsizes r).1, hs.space_eq, FixedIn]

/-- On every device tree all passes end. If the run goes well, `avoid_fixed_resources` never goes wrong
and the memory windows have room above where it lets them start, nothing below a domain has an address
of a fixed resource of the domain. -/
theorem devConfigure_clear (h : DeviceTree t rank height) (hs : PciResources t s)
    (hlink : ∀ d ∈ domains t root, t.linkList d ≠ [])
    (hunique : ∀ d ∈ domains t root, ∀ r ∈ t.resourceList d, ∀ q ∈ t.resourceList d,
      isFixed s r = false → isFixed s q = false → (s r).kind = (s q).kind → r = q)
    (hdepth : height ≤ rank root + depth) (hsound : Sound s) :
    ∃ s₀ s₂ s₁ x, forWindows (computeResources t depth) (allWindows t s root) s = some s₀ ∧
      (domains t root).foldlM (avoidFixedResources t depth) s₀ = some s₂ ∧
      prepareDomains t depth root s = some s₁ ∧ devConfigure t depth root s = some x ∧
      (GoodRun t depth root s s₁ →
        Admits (avoidFixedResources t depth) (fun s d => Avoidable t s depth d) s₀ (domains t root) →
        Stays t depth root s₂ → ClearBelow t root x.1) := by
  obtain ⟨s₁, x, hprepare, hshape, heq⟩ := devConfigure_ends h hs hlink hdepth
  obtain ⟨s₀, heq₀, hrest⟩ := Option.bind_eq_some_iff.mp hprepare
  obtain ⟨s₂, heq₂, heq₁⟩ := Option.map_eq_some_iff.mp hrest
  rw [← List.foldl_flatMap] at heq₁
  refine ⟨s₀, s₂, s₁, x, heq₀, heq₂, hprepare, heq, fun hgood havoid hstays => ?_⟩
  obtain ⟨s₀', s₁', hprepare', hroomed, hshifted, -⟩ :=
    prepareDomains_roomed h hs hlink hunique hdepth hsound hgood.fresh
  obtain rfl := Option.some.inj (hprepare.symm.trans hprepare')
  obtain ⟨hlaid, hfair⟩ := allocateResources_fair h hs hlink hunique hdepth hshape hroomed hshifted heq
    hprepare hgood
  obtain ⟨-, -, -, hclear⟩ := foldlM_clearOfFixed h ((h.children_nodup root).filter _) heq₂ havoid
    fun s d hd s' hs' => by
      obtain ⟨s'', heq'', hshifted''⟩ := avoidFixedResources_shifted h (List.mem_filter.mp hd).1 hdepth s
      obtain rfl := Option.some.inj (heq''.symm.trans hs')
      exact hshifted''.flags
  have hmove : Shifted s₂ s₁ := heq₁ ▸ Shifted.foldl moveToTop_shifted _ s₂
  have hshape₂ : SameShape s s₂ := hshape.trans hmove.shape.symm
  have hshape' := hshape.trans hlaid.shape
  intro d hd b hb r hbelow hfixed hocc e he f hf m hfm hm
  have hdc := (List.mem_filter.mp hd).1
  obtain ⟨w, hw, hrw⟩ := hgood.exists_region hs hshape hroomed hshifted hlaid hfixed hocc
  obtain ⟨d', hd', hdw⟩ := mem_allWindows hs hw
  have htyped := hdw.plain.typed
  have hr : r ∈ below t s depth w := by
    rcases List.mem_cons.mp hrw with rfl | hr
    · exact absurd hbelow (h.not_below_link hdc hdw.bridge (List.mem_filter.mp hd').1 hb)
    · exact hr
  obtain rfl : d = d' := h.device_unique hdc (List.mem_filter.mp hd').1 (Or.inr ⟨b, hb, hbelow⟩)
    (Or.inr ⟨w.bus, hdw.bus_mem, (belowBus_of_below hr).1⟩)
  -- the window is inside of what it was made smaller to
  have hbase : (s₂ w.bridge).base ≤ (s₁ w.bridge).base := by
    rcases foldl_moveToTop_base ((domains t root).flatMap t.resourceList) s₂ w.bridge with
      hsame | ⟨hmem, hmax⟩
    · rw [← heq₁, hsame]
    · rw [← heq₁, hmax]
      refine hstays w (by rwa [allWindows_congr hshape₂]) hmem ⟨r, ?_, ?_⟩
      · rwa [below_congr hshape₂ htyped]
      · rw [← (hmove.sizes r).1, ← (hlaid.sizes r).1]
        exact hocc.1
  have hlimit := hmove.limit w.bridge
  have hbridge : (x.1 w.bridge).base = (s₁ w.bridge).base ∧
      (x.1 w.bridge).limit = (s₁ w.bridge).limit := by
    rw [hlaid.bridge w hw]
    exact ⟨rfl, rfl⟩
  have htree : IsTree t x.1 depth w := (hdw.isTree h hs hd hdepth).congr hshape' htyped
  have hbridged : Bridged t x.1 depth w := (hgood.bridged w hw).congr hshape' htyped
  have hwithin := @Everywhere.within t x.1 depth w (s₂ w.bridge).base ((s₂ w.bridge).limit + 1) htree
    hbridged (hlaid.buses w hw) (hfair w hw) fun found hfound q hq hqocc => by
      cases depth with
      | zero => exact htree.elim
      | succ depth =>
        obtain ⟨-, hlow, hhigh, -⟩ := ((hlaid.buses w hw).1 found hfound).placed q hq hqocc
        have := ((hlaid.buses w hw).1 found hfound).limit q hq
        omega
  obtain ⟨v, found, hat, hmem⟩ := hwithin.exists_found htree hbridged
    (by rwa [below_congr hshape' htyped])
  obtain ⟨hlow, hhigh⟩ := hat r (mem_movable.mpr ⟨hmem, hfixed⟩) hocc
  -- what it was made smaller to is clear
  have hspace : (s₂ w.bridge).space = some m := by
    rw [hshape₂.space_eq, ← hdw.space_eq hs hr, ← hshape'.space_eq]
    exact hm
  have hff : isFixed s₂ f = true := by
    rw [hshape₂.isFixed_eq, ← hshape'.isFixed_eq]
    exact hfm.1
  have hffbase : (x.1 f).base = (s₂ f).base := by
    rw [hlaid.fixed f (by rwa [hmove.shape.isFixed_eq]), ← heq₁, foldl_moveToTop_fixed hff]
  have hffsize : (x.1 f).size = (s₂ f).size := (hmove.sizes.trans hlaid.sizes f).1
  have hfm₂ : FixedIn s₂ m f :=
    (fixedIn_congr (hmove.shape.trans hlaid.shape) (hmove.sizes.trans hlaid.sizes)).mp hfm
  have hmovable : ¬(s₂ w.bridge).has IORESOURCE_FIXED = true := by
    have := (hshape₂.isFixed_eq w.bridge).trans hdw.movable
    rw [isFixed] at this
    rw [this]
    decide
  have hsize := hocc.1
  have hfsize := hfm₂.2.1
  rw [Resource.Apart, hffbase, hffsize]
  rcases hclear d hd w.bridge hdw.bridge hmovable m hspace e he f hf hfm₂ with hempty | hnone
  · omega
  · have := hnone (x.1 r).base
    have := hnone (s₂ f).base
    omega

/-! ### A small and a large memory window -/

/-- The domain has memory up to the limit, of which the first 0x2000 bytes are fixed, and the first
device on its bus has 0x2000 bytes of memory. -/
def ramStore (limit : ℕ) : Store
  | 0 => ⟨0, 0, 0xffff, IO_TYPE, 0, 0, 0⟩
  | 1 => ⟨0, 0, limit, MEM_TYPE, 0, 0, 0⟩
  | 2 => ⟨0, 0x2000, 0xffffffff, MEM_TYPE ||| IORESOURCE_FIXED, 0, 0, 0⟩
  | 3 => ⟨0, 0x2000, 0xffffffff, MEM_TYPE, 0x10, 12, 12⟩
  | _ => ⟨0, 0, 0, 0, 0, 0, 0⟩

private lemma forall_ramStore {limit : ℕ} (P : Resource → Prop)
    (h : ∀ r < 5, P (ramStore limit r)) (r : ResourceId) : P (ramStore limit r) := by
  rcases Nat.lt_or_ge r 5 with hr | hr
  · exact h r hr
  · obtain ⟨k, rfl⟩ := Nat.exists_eq_add_of_le' hr
    exact h 4 (by decide)

lemma ramStore_pciResources : PciResources forkTopology (ramStore 0x7fff) := by
  have hempty : ∀ n : ℕ, forkTopology.resourceList (n + 5) = [] := fun n => by
    simp [forkTopology]
  refine ⟨forall_ramStore (fun a => a.kind = IO_TYPE ∨ a.kind = MEM_TYPE ∨ a.kind = PREF_TYPE ∨
    a.kind &&& ( IORESOURCE_IO ||| IORESOURCE_MEM) = 0) (by decide), ?_, ?_, ?_, ?_⟩
  all_goals
    rintro (_ | _ | _ | _ | _ | n)
    · decide
    · decide
    · decide
    · decide
    · decide
    · simp [hempty]

lemma ramStore_sound : Sound (ramStore 0x7fff) :=
  ⟨forall_ramStore (fun a => a.size < 2 ^ 64 ∧ a.limit < 2 ^ 64 ∧ a.align < 64 ∧ a.gran < 64)
    (by decide), forall_ramStore (fun a => a.base < 2 ^ 64) (by decide)⟩

private lemma forkTopology_lt {r d : ℕ} (h : r ∈ forkTopology.resourceList d) : r < 7 := by
  simp only [forkTopology] at h
  split_ifs at h with h₀ h₁
  · have hr : r = 0 ∨ r = 1 ∨ r = 2 := by simpa using h
    omega
  · have hr : r = d + 2 := List.mem_singleton.mp h
    rw [hr]
    exact Nat.add_lt_add_right h₁ 2
  · simp at h

/-- The run goes well up to the second pass. -/
lemma ramStore_goodRun {s₁ : Store}
    (heq : prepareDomains forkTopology 3 0 (ramStore 0x7fff) = some s₁) :
    GoodRun forkTopology 3 0 (ramStore 0x7fff) s₁ := by
  have hrun : (prepareDomains forkTopology 3 0 (ramStore 0x7fff)).map (fun s₁ : Store => decide
      ((∀ w ∈ (allWindows forkTopology (ramStore 0x7fff) 0).reduceOption,
        NoWrap forkTopology s₁ 3 w) ∧
      Admits (fun x c => c.bind fun c => allocateResources forkTopology 3 c x)
        (fun x c => ∀ v ∈ c, EachRound forkTopology (GoodRound forkTopology) 3 v x) (s₁, [])
        (allWindows forkTopology (ramStore 0x7fff) 0))) = some true := by
    decide +kernel
  rw [heq] at hrun
  obtain ⟨hnowrap, hrounds⟩ := of_decide_eq_true (Option.some.inj hrun)
  refine ⟨fun r _ _ => ?_, ?_, ?_, hnowrap, hrounds⟩
  · exact forall_ramStore (fun a => a.has IORESOURCE_ASSIGNED = false) (by decide) r
  · decide +kernel
  · decide +kernel

/-- The fixed memory starts where the window does, which is put above it. -/
lemma ramStore_avoidable {s₀ : Store} (heq : forWindows (computeResources forkTopology 3)
    (allWindows forkTopology (ramStore 0x7fff) 0) (ramStore 0x7fff) = some s₀) :
    Avoidable forkTopology s₀ 3 0 := by
  have hrun : (forWindows (computeResources forkTopology 3)
      (allWindows forkTopology (ramStore 0x7fff) 0) (ramStore 0x7fff)).map (fun s₀ : Store => decide
        ((∀ r : ℕ, r < 7 → isFixed s₀ r = true → r = 2) ∧ (s₀ 2).space = some .mem ∧ (s₀ 2).base = 0 ∧
          (s₀ 2).size = 0x2000 ∧ (initialLimits forkTopology s₀ 0).get .mem = ⟨0, 0x7fff⟩)) =
      some true := by
    decide +kernel
  rw [heq] at hrun
  obtain ⟨hfixed, hspace, hbase, hsize, hregion⟩ := of_decide_eq_true (Option.some.inj hrun)
  have hspec : ∀ r < 7, ∀ m, FixedIn s₀ m r → r = 2 ∧ m = .mem := by
    intro r hr m hm
    obtain rfl := hfixed r hr hm.1
    exact ⟨rfl, Option.some.inj (hm.2.2.symm.trans hspace)⟩
  refine ⟨fun e _ f hf m hm => ?_, fun rs hrs => ?_⟩
  · obtain ⟨rfl, -⟩ := hspec f (forkTopology_lt hf) m hm
    exact ⟨by omega, by omega⟩
  · obtain rfl : rs = [0, 1, 2, 3, 5, 4, 6] := (Option.some.inj hrs).symm
    have hskip : ∀ r < 7, r ≠ 2 → ∀ limits : Constraints,
        constrainResource s₀ limits r = limits := by
      intro r hr hne limits
      have hnot : (s₀ r).has IORESOURCE_FIXED = false := by
        by_contra h
        exact hne (hfixed r hr (by simpa [isFixed] using h))
      rw [constrainResource, hnot]
      rfl
    iterate 2
      refine neverWrong_cons (fun m hm => absurd (hspec _ (by decide) m hm).1 (by decide)) ?_
    refine neverWrong_cons (fun m hm => ?_) ?_
    · obtain ⟨-, rfl⟩ := hspec 2 (by decide) m hm
      rw [hskip 0 (by decide) (by decide), hskip 1 (by decide) (by decide), hregion]
      have habove : Limit.Above ⟨0, 0x7fff⟩ (s₀ 2) := by
        rw [Limit.Above, hbase, hsize]
        decide
      rw [Limit.GoesWrong, if_pos habove, hbase, hsize]
      exact fun hwrong => absurd hwrong.2 (by decide)
    · iterate 4
        refine neverWrong_cons (fun m hm => absurd (hspec _ (by decide) m hm).1 (by decide)) ?_
      exact neverWrong_nil _

theorem devConfigure_clear_fork :
    ∃ x, devConfigure forkTopology 3 0 (ramStore 0x7fff) = some x ∧ ClearBelow forkTopology 0 x.1 := by
  have hdomains : domains forkTopology 0 = [0] := by decide
  obtain ⟨s₀, s₂, s₁, x, heq₀, heq₂, hprepare, heq, hclear⟩ := devConfigure_clear forkTopology_tree
    ramStore_pciResources (by rw [hdomains]; decide) (by rw [hdomains]; decide)
    (show 3 ≤ (fun b : ℕ => min b 2) 0 + 3 by decide) ramStore_sound
  have hrun : ((forWindows (computeResources forkTopology 3)
      (allWindows forkTopology (ramStore 0x7fff) 0) (ramStore 0x7fff)).bind fun s₀ =>
        ((domains forkTopology 0).foldlM (avoidFixedResources forkTopology 3) s₀).map
          fun s₂ : Store => decide (Stays forkTopology 3 0 s₂)) = some true := by
    decide +kernel
  rw [heq₀, Option.bind_some, heq₂] at hrun
  refine ⟨x, heq, hclear (ramStore_goodRun hprepare) ?_ (of_decide_eq_true (Option.some.inj hrun))⟩
  rw [hdomains]
  exact ⟨ramStore_avoidable heq₀, fun _ _ => trivial⟩

/-- Above the fixed memory there is room for half of what the device needs: the window is moved down
into the fixed memory, and the resource fits. -/
theorem not_clearBelow : ∃ x, devConfigure forkTopology 3 0 (ramStore 0x2fff) = some x ∧ x.2 = [] ∧
    ¬ClearBelow forkTopology 0 x.1 := by
  have hrun : ((devConfigure forkTopology 3 0 (ramStore 0x2fff)).map
      fun (x : Store × List ResourceId) => decide (x.2 = [] ∧ isFixed x.1 3 = false ∧
        (x.1 3).Occupies ∧ FixedIn x.1 .mem 2 ∧ (x.1 3).space = some .mem ∧ (x.1 3).base = 0x1000 ∧
        (x.1 3).size = 0x2000 ∧ (x.1 2).base = 0 ∧ (x.1 2).size = 0x2000)) = some true := by
    decide +kernel
  obtain ⟨x, heq, hx⟩ := Option.map_eq_some_iff.mp hrun
  obtain ⟨hfit, hmovable, hocc, hfixed, hspace, hbase, hsize, hbase', hsize'⟩ := of_decide_eq_true hx
  refine ⟨x, heq, hfit, fun hclear => ?_⟩
  have hbelow : BelowBus forkTopology 1 3 :=
    @BelowBus.here forkTopology 1 1 3 (by decide) (by decide)
  have hapart := hclear 0 (by decide) 1 (by decide) 3 hbelow hmovable hocc 0 .self 2 (by decide) .mem
    hfixed hspace
  rw [Resource.Apart] at hapart
  omega

end ApuBios.Allocator
