import ApuBios.Device.Allocator.Agreement
import ApuBios.Device.Allocator.Fair

/-!
# What is assigned after all passes

After `dev_configure`, everything below the domains that counts as assigned is aligned, in its limit,
apart from the rest of its bus and inside the window above it, whether all resources fit or not, as
long as the run goes well (`devConfigure_fair`). A window of a bridge that does not fit counts as
assigned all the same, wherever the first pass has put it (`not_fair`).
-/

namespace ApuBios.Allocator

open Packing Transition

variable {t : Topology} {s s' s₁ : Store} {rank : BusId → ℕ} {height depth : ℕ} {root : BusId}
  {w c : Window} {r q : ResourceId} {found : List ResourceId} {P : Window → List ResourceId → Prop}

/-- The resource is aligned and in its limit. -/
def Resource.Fits (a : Resource) : Prop := 2 ^ a.align ∣ a.base ∧ a.base + a.size ≤ a.limit + 1

instance (a : Resource) : Decidable a.Fits := inferInstanceAs (Decidable (_ ∧ _))

/-- The resources have no address in common. -/
def Resource.Apart (a b : Resource) : Prop := a.base + a.size ≤ b.base ∨ b.base + b.size ≤ a.base

/-- What counts as assigned below the domains is aligned, in its limit, apart from what is on the
same bus, and inside the window above. -/
structure FairBelow (t : Topology) (depth : ℕ) (root : BusId) (s : Store) : Prop where
  fits : ∀ r, (∀ w ∈ (allWindows t s root).reduceOption, r ≠ w.bridge) → isFixed s r = false →
    (s r).Occupies → (s r).Fits
  buses : ∀ w ∈ (allWindows t s root).reduceOption, Everywhere t s (FairAt t s) depth w

/-- So are the windows of the domains, which are all on the root bus. -/
structure Fair (t : Topology) (depth : ℕ) (root : BusId) (s : Store) : Prop
    extends FairBelow t depth root s where
  domains : ∀ w ∈ (allWindows t s root).reduceOption, (s w.bridge).Occupies → (s w.bridge).Fits
  apart : (allWindows t s root).reduceOption.Pairwise fun w w' => w.type = w'.type →
    (s w.bridge).Occupies → (s w'.bridge).Occupies → (s w.bridge).Apart (s w'.bridge)

/-- The window of a domain has a place: memory is moved to the top of what is left of it, other
windows start at an aligned address. -/
def Resource.Seated (a : Resource) : Prop :=
  a.size ≠ 0 → if a.has IORESOURCE_MEM then a.size ≤ a.limit + 1 else a.Fits

/-- The windows of the domains have places, and no two of a type the same. -/
structure Seats (t : Topology) (root : BusId) (s : Store) : Prop where
  seated : ∀ w ∈ (allWindows t s root).reduceOption, (s w.bridge).Seated
  apart : (allWindows t s root).reduceOption.Pairwise fun w w' => w.type = w'.type →
    (s w.bridge).size ≠ 0 → (s w'.bridge).size ≠ 0 → (s w.bridge).Apart (s w'.bridge)

/-- Nothing goes wrong in `dev_configure`, from the store `s` on, through the store `s₁` before
`allocate_resources` is called. -/
structure GoodRun (t : Topology) (depth : ℕ) (root : BusId) (s s₁ : Store) : Prop where
  /-- what no window leads to does not count as assigned from the start -/
  unassigned : ∀ r, (∀ w ∈ (allWindows t s root).reduceOption, r ∉ region t s depth w) →
    isFixed s r = false → (s r).has IORESOURCE_ASSIGNED = false
  /-- the windows of bridges start at zero, those for I/O aligned to 0x400 -/
  fresh : ∀ w ∈ (allWindows t s root).reduceOption, FreshBelow t s depth w
  /-- bridges are enabled, and their windows are not fixed -/
  bridged : ∀ w ∈ (allWindows t s root).reduceOption, Bridged t s depth w
  noWrap : ∀ w ∈ (allWindows t s root).reduceOption, NoWrap t s₁ depth w
  rounds : Admits (fun x c => c.bind fun c => allocateResources t depth c x)
    (fun x c => ∀ v ∈ c, EachRound t (GoodRound t) depth v x) (s₁, []) (allWindows t s root)

section Decidable

variable (t : Topology) (s : Store) (depth : ℕ) (w : Window)

instance {P : Window → List ResourceId → Prop} [∀ v found, Decidable (P v found)] :
    (depth : ℕ) → (w : Window) → Decidable (EverywhereBelow t s P depth w)
  | 0, _ => .isTrue trivial
  | _ + 1, _ => inferInstanceAs (Decidable (∀ c ∈ _, Everywhere t s P _ c))

instance {G : Window → AllocateState → ResourceId → Prop} [∀ w x r, Decidable (G w x r)] :
    (depth : ℕ) → (w : Window) → (x : Store × List ResourceId) → Decidable (EachRound t G depth w x)
  | 0, _, _ => .isTrue trivial
  | depth + 1, w, (s, _) =>
    have : ∀ w x, Decidable (EachRound t G depth w x) := instDecidableEachRound depth
    inferInstanceAs (Decidable (∀ found ∈ w.resources t (depth + 1) s, _ ∧ _))

end Decidable

/-! ### The windows of domains -/

lemma resourceMax_fits {a : Resource} (hsize : a.size ≠ 0) (hroom : a.size ≤ a.limit + 1)
    (hlimit : a.limit < 2 ^ 64) (halign : a.align < 64) :
    2 ^ a.align ∣ resourceMax a ∧ resourceMax a + a.size ≤ a.limit + 1 := by
  have hstart : Word.add 64 (Word.sub 64 a.limit a.size) 1 = a.limit + 1 - a.size := by
    rcases hroom.lt_or_eq with hlt | heq
    · rw [Word.sub_eq (by omega) hlimit, Word.add_eq (by omega)]
      omega
    · -- the whole space up to the limit is taken
      rw [Word.sub, Word.add]
      omega
  have hlt : a.limit + 1 - a.size < 2 ^ 64 := by omega
  have hle := @Word.alignDown_le 64 a.align _ halign.le hlt
  rw [resourceMax, hstart]
  exact ⟨Nat.dvd_of_mod_eq_zero (Word.alignDown_mod halign.le hlt), by omega⟩

/-- A window of a domain that has a size fits exactly if it has a place. -/
lemma Resource.fits_iff_seated {a : Resource} (hsize : a.size ≠ 0)
    (htop : a.has IORESOURCE_MEM = true → a.base = resourceMax a) (hlimit : a.limit < 2 ^ 64)
    (halign : a.align < 64) : a.Fits ↔ a.Seated := by
  rw [Seated, forall_prop_of_true hsize]
  split_ifs with hmem
  · refine ⟨fun h => (Nat.le_add_left _ _).trans h.2, fun h => ?_⟩
    rw [Fits, htop hmem]
    exact resourceMax_fits hsize h hlimit halign
  · rfl

/-! ### All resources -/

/-- What is below a window is on a bus, if the windows of bridges are. -/
lemma Everywhere.exists_found (h : Everywhere t s P depth w) (htree : IsTree t s depth w)
    (hbridged : Bridged t s depth w) (hr : r ∈ below t s depth w) :
    ∃ v found, P v found ∧ r ∈ found := by
  induction depth generalizing w with
  | zero => exact htree.elim
  | succ depth ih =>
    obtain ⟨found, hfound⟩ := Option.isSome_iff_exists.mp htree.1.found
    rw [below_succ hfound] at hr
    rcases List.mem_append.mp hr with hr | hr
    · exact ⟨w, found, h.1 found hfound, hr⟩
    · obtain ⟨c, hc, hr⟩ := List.mem_flatMap.mp hr
      rcases List.mem_cons.mp hr with rfl | hr
      · exact ⟨w, found, h.1 found hfound, (mem_movable.mp (hbridged.1 found hfound c hc)).1⟩
      · exact ih (h.2 c hc) (htree.2 c hc) (hbridged.2 c hc) hr

lemma NoWrapAt.packFits (h : NoWrapAt s w found) : packResources s 0 (takeOrder s found) < 2 ^ 64 :=
  Word.le_roundUp.trans_lt h

lemma NoWrapAt.shifted (h : Shifted s s') (hat : NoWrapAt s' w found) : NoWrapAt s w found := by
  rw [NoWrapAt, ← h.sizes.takeOrder_eq h.shape, ← h.sizes.packResources_eq h.shape, ← h.gran]
  exact hat

/-! ### The passes one after the other -/

section Passes

variable (h : DeviceTree t rank height) (hs : PciResources t s)
  (hlink : ∀ d ∈ domains t root, t.linkList d ≠ [])
  (hunique : ∀ d ∈ domains t root, ∀ r ∈ t.resourceList d, ∀ q ∈ t.resourceList d,
    isFixed s r = false → isFixed s q = false → (s r).kind = (s q).kind → r = q)
  (hdepth : height ≤ rank root + depth)
include h hs hlink hdepth

/-- All passes end. -/
lemma devConfigure_ends : ∃ s₁ x, prepareDomains t depth root s = some s₁ ∧ SameShape s s₁ ∧
    devConfigure t depth root s = some x := by
  obtain ⟨s₁, heq, hshape⟩ := prepareDomains_ends h hs hlink hdepth
  have hs₁ := hs.congr hshape
  obtain ⟨x, heq', -⟩ := forWindows_run (allWindows t s₁ root).reduceOption
    (f := allocateResources t depth) (x := (s₁, [])) (P := fun _ x => SameShape s₁ x.1)
    (fun p w q hws x hx => by
      have hmem : w ∈ (allWindows t s₁ root).reduceOption := by
        rw [hws]
        simp
      obtain ⟨d, hd, hw⟩ := mem_allWindows hs₁ hmem
      obtain ⟨x', heq, hx', -⟩ := allocateResources_settles
        ((hw.isTree h hs₁ hd hdepth).congr hx hw.plain.typed) hw.plain.typed x.2
      exact ⟨x', heq, hx.trans hx'⟩) (.refl s₁)
  refine ⟨s₁, x, heq, hshape, ?_⟩
  rw [devConfigure, heq, Option.bind_some, allWindows_eq hlink]
  exact heq'

include hunique

/-- What the second pass starts with. -/
lemma prepareDomains_roomed (hsound : Sound s)
    (hfresh : ∀ w ∈ (allWindows t s root).reduceOption, FreshBelow t s depth w) :
    ∃ s₀ s₁, prepareDomains t depth root s = some s₁ ∧
      Roomed t s s₀ depth (allWindows t s root).reduceOption ∧ Shifted s₀ s₁ ∧
      ∀ w ∈ (allWindows t s root).reduceOption, AtTop s₁ w.bridge := by
  obtain ⟨s₀, heq, hroomed⟩ := forWindows_roomed (allWindows t s root).reduceOption
    (fun w hw => by
      obtain ⟨d, hd, hw⟩ := mem_allWindows hs hw
      exact hw.plain.typed)
    (fun w hw => by
      obtain ⟨d, hd, hw⟩ := mem_allWindows hs hw
      exact hw.isTree h hs hd hdepth)
    hsound hfresh (allWindows_disjoint h hs hunique depth)
  obtain ⟨s₂, heq₂, h₂⟩ := foldlM_ends Shifted.refl Shifted.trans (l := domains t root)
    (f := avoidFixedResources t depth) (fun d hd s =>
      avoidFixedResources_shifted h (List.mem_filter.mp hd).1 hdepth s) s₀
  refine ⟨s₀, ((domains t root).flatMap t.resourceList).foldl moveToTop s₂, ?_, hroomed,
    h₂.trans (Shifted.foldl moveToTop_shifted _ s₂), fun w hw => ?_⟩
  · rw [prepareDomains, allWindows_eq hlink, heq, Option.bind_some, heq₂, List.foldl_flatMap]
    rfl
  · obtain ⟨d, hd, hw⟩ := mem_allWindows hs hw
    exact AtTop.foldl (Or.inr (List.mem_flatMap.mpr ⟨d, hd, hw.bridge⟩))

/-- Where the windows of domains are, and what is behind them, after the second pass. -/
lemma allocateResources_fair {s₀ s₁ : Store} {x : Store × List ResourceId} (hshape : SameShape s s₁)
    (hroomed : Roomed t s s₀ depth (allWindows t s root).reduceOption) (hshifted : Shifted s₀ s₁)
    (heq : devConfigure t depth root s = some x) (hprepare : prepareDomains t depth root s = some s₁)
    (hgood : GoodRun t depth root s s₁) :
    LaidOut t s₁ x.1 depth (allWindows t s root).reduceOption ∧
      ∀ w ∈ (allWindows t s root).reduceOption, Everywhere t x.1 (FairAt t x.1) depth w := by
  have hwindow : ∀ w ∈ (allWindows t s root).reduceOption, w.Typed ∧ IsTree t s depth w := by
    intro w hw
    obtain ⟨d, hd, hw⟩ := mem_allWindows hs hw
    exact ⟨hw.plain.typed, hw.isTree h hs hd hdepth⟩
  have hregion : ∀ w ∈ (allWindows t s root).reduceOption, region t s₁ depth w = region t s depth w :=
    fun w hw => region_congr hshape (hwindow w hw).1
  have hrounds := hgood.rounds
  rw [allWindows_eq hlink] at hrounds
  obtain ⟨x', heq', hlaid⟩ := forWindows_laidOut allocateResources_laidOut
    (allWindows t s root).reduceOption (fun w hw => (hwindow w hw).1)
    (fun w hw => (hwindow w hw).2.congr hshape (hwindow w hw).1) (hshifted.sound hroomed.sound)
    (fun w hw => (hgood.noWrap w hw).imp (.refl s₁) (hwindow w hw).1 fun _ _ _ _ _ hat => hat.packFits)
    ((allWindows_disjoint h hs hunique depth).imp_of_mem fun {w w'} hw hw' hdisj => by
      rwa [hregion w hw, hregion w' hw']) hrounds
  obtain rfl : x' = x := by
    rw [devConfigure, hprepare, Option.bind_some, allWindows_congr hshape, allWindows_eq hlink] at heq
    exact Option.some.inj (heq'.symm.trans heq)
  refine ⟨hlaid, fun w hw => ?_⟩
  obtain ⟨htyped, htree⟩ := hwindow w hw
  have hnowrap : NoWrap t s₀ depth w := (hgood.noWrap w hw).imp hshifted.shape.symm htyped
    fun _ _ _ _ _ hat => hat.shifted hshifted
  have hsizes := hshifted.sizes.trans hlaid.sizes
  have hroomy : RoomyBelow t x'.1 depth w :=
    (hroomed.roomy w hw hnowrap.everywhereBelow).imp (hshifted.shape.trans hlaid.shape) htyped
      fun _ _ _ _ _ hat => hat.congr (hshifted.shape.trans hlaid.shape) fun r _ => hsizes r
  exact (hlaid.buses w hw).fair (htree.congr (hshape.trans hlaid.shape) htyped) hroomy

end Passes

/-- What counts as assigned after the second pass is behind a window, or a window itself: nothing else
is touched. -/
lemma GoodRun.exists_region {s₀ s₁ : Store} {x : Store × List ResourceId}
    (hgood : GoodRun t depth root s s₁) (hs : PciResources t s) (hshape : SameShape s s₁)
    (hroomed : Roomed t s s₀ depth (allWindows t s root).reduceOption) (hshifted : Shifted s₀ s₁)
    (hlaid : LaidOut t s₁ x.1 depth (allWindows t s root).reduceOption)
    (hfixed : isFixed x.1 r = false) (hocc : (x.1 r).Occupies) :
    ∃ w ∈ (allWindows t s root).reduceOption, r ∈ region t s depth w := by
  by_contra hled
  have hout : ∀ w ∈ (allWindows t s root).reduceOption, r ∉ region t s depth w :=
    fun w hw hrw => hled ⟨w, hw, hrw⟩
  have hsame : (x.1 r).flags = (s r).flags := by
    rw [hlaid.frame r fun w hw => ?_, hshifted.flags, hroomed.frame r hout]
    obtain ⟨d, -, hdw⟩ := mem_allWindows hs hw
    rw [region_congr hshape hdw.plain.typed]
    exact hout w hw
  have hnot := hgood.unassigned r hout (by rwa [← (hshape.trans hlaid.shape).isFixed_eq])
  rw [Resource.has, ← hsame] at hnot
  exact absurd (hnot.symm.trans hocc.2) (by decide)

/-- On every device tree all passes end. If the run goes well, everything below the domains that
counts as assigned after it is where it may be, and so are the windows of the domains if there are
places for them. -/
theorem devConfigure_fair (h : DeviceTree t rank height) (hs : PciResources t s)
    (hlink : ∀ d ∈ domains t root, t.linkList d ≠ [])
    (hunique : ∀ d ∈ domains t root, ∀ r ∈ t.resourceList d, ∀ q ∈ t.resourceList d,
      isFixed s r = false → isFixed s q = false → (s r).kind = (s q).kind → r = q)
    (hdepth : height ≤ rank root + depth) (hsound : Sound s) :
    ∃ s₁ x, prepareDomains t depth root s = some s₁ ∧ devConfigure t depth root s = some x ∧
      (GoodRun t depth root s s₁ →
        FairBelow t depth root x.1 ∧ (Fair t depth root x.1 ↔ Seats t root s₁)) := by
  obtain ⟨s₁, x, hprepare, hshape, heq⟩ := devConfigure_ends h hs hlink hdepth
  refine ⟨s₁, x, hprepare, heq, fun hgood => ?_⟩
  obtain ⟨s₀, s₁', hprepare', hroomed, hshifted, htop⟩ :=
    prepareDomains_roomed h hs hlink hunique hdepth hsound hgood.fresh
  obtain rfl := Option.some.inj (hprepare.symm.trans hprepare')
  obtain ⟨hlaid, hfair⟩ := allocateResources_fair h hs hlink hunique hdepth hshape hroomed hshifted heq
    hprepare hgood
  have hshape' := hshape.trans hlaid.shape
  have hvalid := (hshifted.sound hroomed.sound).valid
  have hwindow : ∀ w ∈ (allWindows t s root).reduceOption,
      w.Typed ∧ IsTree t s depth w ∧ isFixed s w.bridge = false := by
    intro w hw
    obtain ⟨d, hd, hw⟩ := mem_allWindows hs hw
    exact ⟨hw.plain.typed, hw.isTree h hs hd hdepth, hw.movable⟩
  have hbelow : FairBelow t depth root x.1 := by
    refine ⟨fun r hr hfixed hocc => ?_, by rwa [allWindows_congr hshape']⟩
    rw [allWindows_congr hshape'] at hr
    obtain ⟨w, hw, hrw⟩ := hgood.exists_region hs hshape hroomed hshifted hlaid hfixed hocc
    obtain ⟨htyped, htree, -⟩ := hwindow w hw
    have hrw' : r ∈ below t x.1 depth w := by
      rw [below_congr hshape' htyped]
      exact (List.mem_cons.mp hrw).resolve_left (hr w hw)
    obtain ⟨v, found, hat, hmem⟩ := (hfair w hw).exists_found (htree.congr hshape' htyped)
      ((hgood.bridged w hw).congr hshape' htyped) hrw'
    exact hat.placed r (mem_movable.mpr ⟨hmem, hfixed⟩) hocc
  -- the windows of domains stay where they were before the second pass, and count as assigned
  have hbridge : ∀ w ∈ (allWindows t s root).reduceOption,
      ((x.1 w.bridge).Occupies ↔ (s₁ w.bridge).size ≠ 0) ∧
      ((x.1 w.bridge).Fits ↔ (s₁ w.bridge).Fits) ∧ (x.1 w.bridge).base = (s₁ w.bridge).base ∧
      (x.1 w.bridge).size = (s₁ w.bridge).size := fun w hw => by
    rw [hlaid.bridge w hw]
    refine ⟨and_iff_left ?_, Iff.rfl, rfl, rfl⟩
    rw [Resource.has, and_assigned]
    decide
  have hseated : ∀ w ∈ (allWindows t s root).reduceOption, (s₁ w.bridge).size ≠ 0 →
      ((s₁ w.bridge).Fits ↔ (s₁ w.bridge).Seated) := fun w hw hsize =>
    Resource.fits_iff_seated hsize (fun hmem => htop w hw hmem
      ((hshape.isFixed_eq _).trans (hwindow w hw).2.2)) (hvalid _).2.1 (hvalid _).2.2.1
  have hapart : (∀ w ∈ (allWindows t s root).reduceOption,
      ∀ w' ∈ (allWindows t s root).reduceOption,
      ((x.1 w.bridge).Apart (x.1 w'.bridge) ↔ (s₁ w.bridge).Apart (s₁ w'.bridge))) := by
    intro w hw w' hw'
    obtain ⟨-, -, hbase, hsize⟩ := hbridge w hw
    obtain ⟨-, -, hbase', hsize'⟩ := hbridge w' hw'
    rw [Resource.Apart, hbase, hsize, hbase', hsize', Resource.Apart]
  refine ⟨hbelow, fun hfair => ⟨?_, ?_⟩, fun hseats => ⟨hbelow, ?_, ?_⟩⟩
  · rw [allWindows_congr hshape]
    intro w hw hsize
    have hdomain := hfair.domains w (by rwa [allWindows_congr hshape'])
    exact (hseated w hw hsize).mp ((hbridge w hw).2.1.mp (hdomain ((hbridge w hw).1.mpr hsize))) hsize
  · have hpairs := hfair.apart
    rw [allWindows_congr hshape'] at hpairs
    rw [allWindows_congr hshape]
    exact hpairs.imp_of_mem fun {w w'} hw hw' hp htype hsize hsize' =>
      (hapart w hw w' hw').mp (hp htype ((hbridge w hw).1.mpr hsize) ((hbridge w' hw').1.mpr hsize'))
  · rw [allWindows_congr hshape']
    intro w hw hocc
    have hsize := (hbridge w hw).1.mp hocc
    exact (hbridge w hw).2.1.mpr ((hseated w hw hsize).mpr
      (hseats.seated w (by rwa [allWindows_congr hshape])))
  · have hpairs := hseats.apart
    rw [allWindows_congr hshape] at hpairs
    rw [allWindows_congr hshape']
    exact hpairs.imp_of_mem fun {w w'} hw hw' hp htype ho ho' =>
      (hapart w hw w' hw').mpr (hp htype ((hbridge w hw).1.mp ho) ((hbridge w' hw').1.mp ho'))

/-! ### Two devices on the bus of a domain -/

/-- A domain, two devices on its bus, and one behind each of them. -/
def forkTopology : Topology where
  children bus := if bus = 0 then [0] else if bus = 1 then [1, 2] else if bus < 4 then [bus + 1] else []
  enabled _ := true
  isDomain dev := dev == 0
  resourceList dev := if dev = 0 then [0, 1, 2] else if dev < 5 then [dev + 2] else []
  linkList dev := if dev < 3 then [dev + 1] else []
  linkNum _ := 0

/-- The domain has 0x2000 ports, of which the first 0x1000 are fixed. The first device is a bridge,
the second one is given; the devices behind them have 0x100 ports each. -/
def forkStore (second : Resource) : Store
  | 0 => ⟨0, 0, 0x1fff, IO_TYPE, 0, 0, 0⟩
  | 1 => ⟨0, 0, 0xffffffff, MEM_TYPE, 0, 0, 0⟩
  | 2 => ⟨0, 0x1000, 0xfff, IO_TYPE ||| IORESOURCE_FIXED, 0, 0, 0⟩
  | 3 => ⟨0, 0, 0xffff, IO_TYPE ||| IORESOURCE_BRIDGE, 0, 12, 12⟩
  | 4 => second
  | 5 => ⟨0, 0x100, 0xffff, IO_TYPE, 0x10, 8, 8⟩
  | 6 => ⟨0, 0x100, 0xffff, IO_TYPE, 0x10, 8, 8⟩
  | _ => ⟨0, 0, 0, 0, 0, 0, 0⟩

private lemma forkTopology_children {b d : ℕ} (h : d ∈ forkTopology.children b) :
    (b = 0 ∧ d = 0) ∨ (b = 1 ∧ (d = 1 ∨ d = 2)) ∨ (1 < b ∧ b < 4 ∧ d = b + 1) := by
  simp only [forkTopology] at h
  split_ifs at h with h₀ h₁ h₂
  · exact Or.inl ⟨h₀, List.mem_singleton.mp h⟩
  · exact Or.inr (Or.inl ⟨h₁, List.mem_pair.mp h⟩)
  · exact Or.inr (Or.inr ⟨Nat.one_lt_iff_ne_zero_and_ne_one.mpr ⟨h₀, h₁⟩, h₂, List.mem_singleton.mp h⟩)
  · simp at h

private lemma forkTopology_links {b d : ℕ} (h : b ∈ forkTopology.linkList d) : d < 3 ∧ b = d + 1 := by
  simp only [forkTopology] at h
  split_ifs at h with hd
  · exact ⟨hd, List.mem_singleton.mp h⟩
  · simp at h

private lemma forkTopology_owner {r d : ℕ} (h : r ∈ forkTopology.resourceList d) : d = r - 2 := by
  simp only [forkTopology] at h
  split_ifs at h with h₀ h₁
  · have hr : r = 0 ∨ r = 1 ∨ r = 2 := by simpa using h
    have hd : (d : ℕ) = 0 := h₀
    omega
  · have hr : r = d + 2 := List.mem_singleton.mp h
    omega
  · simp at h

lemma forkTopology_tree : DeviceTree forkTopology (fun b : ℕ => min b 2) 3 := by
  refine ⟨fun {b b' d} h h' => ?_, fun {d d' b} h h' => ?_, fun h h' => ?_, fun h h' => ?_,
    fun h => ?_, fun b => ?_, fun d => ?_⟩
  · have := forkTopology_children h
    have := forkTopology_children h'
    refine (?_ : @Eq ℕ b b')
    omega
  · obtain ⟨-, hb⟩ := forkTopology_links h
    obtain ⟨-, hb'⟩ := forkTopology_links h'
    exact Nat.add_right_cancel (hb.symm.trans hb')
  · exact (forkTopology_owner h).trans (forkTopology_owner h').symm
  · have := forkTopology_children h
    have := forkTopology_links h'
    omega
  · have := forkTopology_children h
    omega
  · simp only [forkTopology]
    split_ifs <;> simp
  · simp only [forkTopology]
    split_ifs <;> simp

/-- There is nothing behind the seven resources. -/
private lemma forall_forkStore {second : Resource} (P : Resource → Prop)
    (h : ∀ r < 8, P (forkStore second r)) (r : ResourceId) : P (forkStore second r) := by
  rcases Nat.lt_or_ge r 8 with hr | hr
  · exact h r hr
  · obtain ⟨k, rfl⟩ := Nat.exists_eq_add_of_le' hr
    exact h 7 (by decide)

lemma forkStore_pciResources : PciResources forkTopology
    (forkStore ⟨0, 0x20, 0xffff, IO_TYPE, 0x10, 5, 5⟩) := by
  have hempty : ∀ n : ℕ, forkTopology.resourceList (n + 5) = [] := fun n => by
    simp [forkTopology]
  refine ⟨forall_forkStore (fun a => a.kind = IO_TYPE ∨ a.kind = MEM_TYPE ∨ a.kind = PREF_TYPE ∨
    a.kind &&& ( IORESOURCE_IO ||| IORESOURCE_MEM) = 0) (by decide), ?_, ?_, ?_, ?_⟩
  all_goals
    rintro (_ | _ | _ | _ | _ | n)
    · decide
    · decide
    · decide
    · decide
    · decide
    · simp [hempty]

lemma forkStore_sound : Sound (forkStore ⟨0, 0x20, 0xffff, IO_TYPE, 0x10, 5, 5⟩) :=
  ⟨forall_forkStore (fun a => a.size < 2 ^ 64 ∧ a.limit < 2 ^ 64 ∧ a.align < 64 ∧ a.gran < 64)
    (by decide), forall_forkStore (fun a => a.base < 2 ^ 64) (by decide)⟩

/-- The second device has 0x20 ports, which do not fit behind the window of the bridge. -/
theorem devConfigure_fair_fork : ∃ x, devConfigure forkTopology 3 0
    (forkStore ⟨0, 0x20, 0xffff, IO_TYPE, 0x10, 5, 5⟩) = some x ∧ x.2 = [4] ∧
    FairBelow forkTopology 3 0 x.1 := by
  have hdomains : domains forkTopology 0 = [0] := by decide
  obtain ⟨s₁, x, hprepare, heq, hfair⟩ := devConfigure_fair forkTopology_tree forkStore_pciResources
    (by rw [hdomains]; decide) (by rw [hdomains]; decide)
    (show 3 ≤ (fun b : ℕ => min b 2) 0 + 3 by decide) forkStore_sound
  have hfit : (devConfigure forkTopology 3 0
      (forkStore ⟨0, 0x20, 0xffff, IO_TYPE, 0x10, 5, 5⟩)).map Prod.snd = some [4] := by
    decide +kernel
  have hrun : (prepareDomains forkTopology 3 0
      (forkStore ⟨0, 0x20, 0xffff, IO_TYPE, 0x10, 5, 5⟩)).map (fun s₁ : Store => decide
        ((∀ w ∈ (allWindows forkTopology (forkStore ⟨0, 0x20, 0xffff, IO_TYPE, 0x10, 5, 5⟩)
          0).reduceOption, NoWrap forkTopology s₁ 3 w) ∧
        Admits (fun x c => c.bind fun c => allocateResources forkTopology 3 c x)
          (fun x c => ∀ v ∈ c, EachRound forkTopology (GoodRound forkTopology) 3 v x) (s₁, [])
          (allWindows forkTopology (forkStore ⟨0, 0x20, 0xffff, IO_TYPE, 0x10, 5, 5⟩) 0))) =
      some true := by
    decide +kernel
  rw [heq] at hfit
  rw [hprepare] at hrun
  obtain ⟨hnowrap, hrounds⟩ := of_decide_eq_true (Option.some.inj hrun)
  refine ⟨x, heq, Option.some.inj hfit, (hfair ⟨fun r _ _ => ?_, ?_, ?_, hnowrap,
    hrounds⟩).1⟩
  · exact forall_forkStore (fun a => a.has IORESOURCE_ASSIGNED = false) (by decide) r
  · decide +kernel
  · decide +kernel

/-- The second device is a bridge as well. Its window does not fit, and the first pass has put it
where the window of the first bridge is now. -/
theorem not_fair : ∃ x, devConfigure forkTopology 3 0
    (forkStore ⟨0, 0, 0xffff, IO_TYPE ||| IORESOURCE_BRIDGE, 0, 12, 12⟩) = some x ∧
    ¬FairBelow forkTopology 3 0 x.1 ∧ ¬Fair forkTopology 3 0 x.1 := by
  have hrun : ((devConfigure forkTopology 3 0
      (forkStore ⟨0, 0, 0xffff, IO_TYPE ||| IORESOURCE_BRIDGE, 0, 12, 12⟩)).map fun (x : Store × List ResourceId) =>
        decide ((∃ w ∈ (allWindows forkTopology x.1 0).reduceOption,
            w.resources forkTopology 3 x.1 = some [3, 4]) ∧
          isFixed x.1 3 = false ∧ isFixed x.1 4 = false ∧ (x.1 3).Occupies ∧ (x.1 4).Occupies ∧
          (x.1 3).base = 0x1000 ∧ (x.1 3).size = 0x1000 ∧ (x.1 4).base = 0x1000 ∧
          (x.1 4).size = 0x1000)) = some true := by decide +kernel
  obtain ⟨x, heq, hx⟩ := Option.map_eq_some_iff.mp hrun
  obtain ⟨⟨w, hw, hfound⟩, hmovable, hmovable', ho, ho', hbase, hsize, hbase', hsize'⟩ :=
    of_decide_eq_true hx
  have hnot : ¬FairBelow forkTopology 3 0 x.1 := fun hfair => by
    have hat := (hfair.buses w hw).1 _ hfound
    have hapart := hat.apart 3 (mem_movable.mpr ⟨by simp, hmovable⟩) 4
      (mem_movable.mpr ⟨by simp, hmovable'⟩) (by decide) ho ho'
    omega
  exact ⟨x, heq, hnot, fun hfair => hnot hfair.toFairBelow⟩

end ApuBios.Allocator
