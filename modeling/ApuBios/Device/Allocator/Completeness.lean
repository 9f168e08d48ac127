import ApuBios.Device.Allocator.DeviceTree
import ApuBios.Device.Allocator.Passes
import Mathlib.Logic.Relation

/-!
# Which resources are allocated

Below the windows of PCI domains, `allocate_resources` takes a resource exactly if it is on the bus
of the domain, or every bridge on the way has a window of its kind.
-/

namespace ApuBios.Allocator

open Relation

/-- The address space of a kind. -/
def spaceOf (kind : BitVec 32) : BitVec 32 := if kind = IO_TYPE then IO_MASK else MEM_MASK

/-- `search_bus_resources` finds the resource. -/
def Found (t : Topology) (s : Store) (typeMask type : BitVec 32) (b : BusId) (r : ResourceId) : Prop :=
  ∃ depth, ∃ found ∈ searchBusResources t s typeMask type depth b, r ∈ found

/-- A bridge on the bus has a window of the kind, which leads to the other bus. -/
def Hop (t : Topology) (s : Store) (kind : BitVec 32) (b b' : BusId) : Prop :=
  ∃ d ∈ t.children b, ∃ q ∈ t.resourceList d, (s q).has IORESOURCE_BRIDGE = true ∧
    (s q).kind = kind ∧ findLink t d (IOINDEX_LINK (s q).index) = some b'

/-- The resource is found on the bus of a domain, or on a bus that windows of its kind lead to. -/
def Served (t : Topology) (s : Store) (root : BusId) (r : ResourceId) : Prop :=
  isFixed s r = false ∧ ∃ d ∈ domains t root, ∃ b ∈ (t.linkList d).head?,
    Found t s (spaceOf (s r).kind) (spaceOf (s r).kind) b r ∨
      ∃ b', TransGen (Hop t s (s r).kind) b b' ∧
        Found t s (spaceOf (s r).kind ||| IORESOURCE_PREFETCH) (s r).kind b' r

/-- A domain has one window for I/O and one for memory. -/
structure PciDomain (t : Topology) (s : Store) (d : DeviceId) : Prop where
  link : t.linkList d ≠ []
  io : ∃ r ∈ t.resourceList d, isFixed s r = false ∧ (s r).kind = IO_TYPE
  mem : ∃ r ∈ t.resourceList d, isFixed s r = false ∧ (s r).kind = MEM_TYPE
  unique : ∀ r ∈ t.resourceList d, ∀ q ∈ t.resourceList d, isFixed s r = false →
    isFixed s q = false → (s r).kind = (s q).kind → r = q

variable {t : Topology} {s s' : Store} {rank : BusId → ℕ} {height depth : ℕ} {root b b' : BusId}
  {d d' : DeviceId} {r q : ResourceId} {w c : Window} {found : List ResourceId}
  {typeMask type : BitVec 32}

/-! ### Fuel -/

private lemma searchDevice_mono {search search' : BusId → Option (List ResourceId)}
    (h : ∀ b, ∀ x ∈ search b, search' b = some x) {l : List ResourceId}
    (hfound : searchDevice t search s typeMask type d l = some found) :
    searchDevice t search' s typeMask type d l = some found := by
  induction l generalizing found with
  | nil => exact hfound
  | cons r l ih =>
    rw [searchDevice] at hfound ⊢
    split_ifs at hfound ⊢ with hmatches hsub
    · exact ih hfound
    · cases hlink : findLink t d (IOINDEX_SUBTRACTIVE_LINK (s r).index) with
      | none => rwa [hlink] at hfound
      | some b =>
        rw [hlink] at hfound
        obtain ⟨sub, hb, hfound⟩ := Option.bind_eq_some_iff.mp hfound
        obtain ⟨rest, hrest, rfl⟩ := Option.map_eq_some_iff.mp hfound
        simp only [h b sub hb, ih hrest, Option.bind_some, Option.map_some]
    · obtain ⟨rest, hrest, rfl⟩ := Option.map_eq_some_iff.mp hfound
      rw [ih hrest, Option.map_some]

private lemma concat_mono {α : Type} {f g : α → Option (List ResourceId)} {l : List α}
    (h : ∀ a ∈ l, ∀ x ∈ f a, g a = some x) (hfound : concat (l.map f) = some found) :
    concat (l.map g) = some found := by
  induction l generalizing found with
  | nil => exact hfound
  | cons a l ih =>
    obtain ⟨part, ha, hfound⟩ := Option.bind_eq_some_iff.mp hfound
    obtain ⟨rest, hrest, rfl⟩ := Option.map_eq_some_iff.mp hfound
    rw [List.map_cons, concat, h a (by simp) part ha, Option.bind_some,
      ih (fun a' ha' => h a' (by simp [ha'])) hrest, Option.map_some]

/-- A search that is deep enough finds the same if it may go deeper. -/
lemma searchBusResources_mono (hfound : searchBusResources t s typeMask type depth b = some found)
    (n : ℕ) : searchBusResources t s typeMask type (depth + n) b = some found := by
  induction depth generalizing b found with
  | zero => simp [searchBusResources] at hfound
  | succ depth ih =>
    rw [Nat.add_right_comm]
    refine concat_mono (fun d _ x hx => ?_) hfound
    split_ifs at hx ⊢
    · exact hx
    · exact searchDevice_mono (fun b x hx => ih hx) hx

lemma Found.mem (h : Found t s typeMask type b r)
    (hfound : searchBusResources t s typeMask type depth b = some found) : r ∈ found := by
  obtain ⟨depth', found', hfound', hr⟩ := h
  have hlong := searchBusResources_mono hfound' depth
  rw [Nat.add_comm, searchBusResources_mono hfound depth'] at hlong
  exact Option.some.inj hlong ▸ hr

/-- What a window takes on its own bus. -/
lemma mem_takeOrder_resources (htree : IsTree t s (depth + 1) w) :
    r ∈ takeOrder s ((w.resources t (depth + 1) s).getD []) ↔
      Found t s w.typeMask w.type w.bus r ∧ isFixed s r = false := by
  obtain ⟨found, hfound⟩ := Option.isSome_iff_exists.mp htree.1.found
  rw [hfound, Option.getD_some, mem_takeOrder (htree.1.nodup found hfound), mem_movable]
  exact and_congr_left fun _ => ⟨fun hr => ⟨depth + 1, found, hfound, hr⟩, fun hr => hr.mem hfound⟩

/-! ### The windows that serve a kind -/

/-- The window is one of a domain, for the address space of the kind. -/
structure Wide (w : Window) (kind : BitVec 32) : Prop where
  typeMask : w.typeMask = spaceOf kind
  type : w.type = spaceOf kind

/-- The window is one of a bridge, for the kind. -/
structure Narrow (w : Window) (kind : BitVec 32) : Prop where
  typeMask : w.typeMask = spaceOf kind ||| IORESOURCE_PREFETCH
  type : w.type = kind

def IsKind (kind : BitVec 32) : Prop := kind = IO_TYPE ∨ kind = MEM_TYPE ∨ kind = PREF_TYPE

lemma Wide.plain {kind : BitVec 32} (hw : Wide w kind) (hk : IsKind kind) : w.Plain := by
  refine ⟨?_, ?_⟩ <;> rw [hw.typeMask] <;> try rw [hw.type]
  all_goals rcases hk with rfl | rfl | rfl <;> decide

lemma Narrow.plain {kind : BitVec 32} (hw : Narrow w kind) (hk : IsKind kind) : w.Plain := by
  refine ⟨?_, ?_⟩ <;> rw [hw.typeMask] <;> try rw [hw.type]
  all_goals rcases hk with rfl | rfl | rfl <;> decide

/-- The resources of a narrow window are of its kind. -/
lemma Narrow.matches_iff {kind : BitVec 32} (hw : Narrow w kind) (hk : IsKind kind)
    (hs : PciResources t s) : (s q).matches w.typeMask w.type = true ↔ (s q).kind = kind := by
  have hplain := hw.plain hk
  refine ⟨fun hq => ?_, fun hq => ?_⟩
  · have hkind := hplain.kind_mem hs hq
    have hand := (hplain.matches_iff _).mp hq
    rw [hw.typeMask, hw.type] at hand
    generalize (s q).kind = kind' at *
    rcases hk with rfl | rfl | rfl <;> rcases hkind with rfl | rfl | rfl <;>
      first | rfl | (exfalso; revert hand; decide)
  · rw [hplain.matches_iff, hq, hw.typeMask, hw.type]
    rcases hk with rfl | rfl | rfl <;> decide

/-- The resources of a wide window are of its address space. -/
lemma Wide.matches_iff {kind : BitVec 32} (hw : Wide w kind) (hk : IsKind kind)
    (hs : PciResources t s) :
    (s q).matches w.typeMask w.type = true ↔
      IsKind (s q).kind ∧ spaceOf (s q).kind = spaceOf kind := by
  have hplain := hw.plain hk
  refine ⟨fun hq => ?_, fun ⟨hkind, hspace⟩ => ?_⟩
  · have hkind := hplain.kind_mem hs hq
    have hand := (hplain.matches_iff _).mp hq
    rw [hw.typeMask, hw.type] at hand
    refine ⟨hkind, ?_⟩
    generalize (s q).kind = kind' at *
    rcases hk with rfl | rfl | rfl <;> rcases hkind with rfl | rfl | rfl <;>
      first | rfl | (exfalso; revert hand; decide)
  · rw [hplain.matches_iff, hw.typeMask, hw.type, ← hspace]
    rcases hkind with h | h | h <;> rw [h] <;> decide

/-- The window of a bridge below a window that serves its kind. -/
lemma IsChild.narrow (hc : IsChild t s w d c) (hk : IsKind (s c.bridge).kind)
    (hw : Wide w (s c.bridge).kind ∨ Narrow w (s c.bridge).kind) : Narrow c (s c.bridge).kind := by
  have hpref : (s c.bridge).flags &&& IORESOURCE_PREFETCH =
      (s c.bridge).kind &&& IORESOURCE_PREFETCH := (s c.bridge).kind_and (by decide)
  refine ⟨?_, ?_⟩
  · rw [hc.typeMask]
    rcases hw with hw | hw
    · rw [hw.typeMask]
    · rw [hw.typeMask, BitVec.or_assoc, BitVec.or_self]
  · rw [hc.type, hpref]
    rcases hw with hw | hw <;> rw [hw.type] <;>
      rcases hk with h | h | h <;> rw [h] <;> decide

/-- Windows of bridges are windows below. -/
lemma Window.exists_child (hd : d ∈ t.children w.bus) (hq : q ∈ t.resourceList d)
    (hflag : (s q).has IORESOURCE_BRIDGE = true) (hmatches : (s q).matches w.typeMask w.type = true)
    (hlink : findLink t d (IOINDEX_LINK (s q).index) = some b) :
    ∃ c ∈ w.childWindows t s, c.bridge = q ∧ c.bus = b ∧ IsChild t s w d c := by
  refine ⟨⟨b, q, w.typeMask ||| IORESOURCE_PREFETCH,
    w.type ||| ((s q).flags &&& IORESOURCE_PREFETCH)⟩, ?_, rfl, rfl,
    ⟨hd, hq, hflag, hmatches, hlink, rfl, rfl⟩⟩
  have hlinks : t.linkList d ≠ [] := List.ne_nil_of_mem (mem_linkList_of_findLink hlink)
  rw [Window.mem_childWindows, Window.children, List.mem_flatMap]
  refine ⟨d, hd, ?_⟩
  rw [if_neg hlinks, List.mem_map]
  exact ⟨q, List.mem_filter.mpr ⟨hq, by simp [hflag, hmatches]⟩, by rw [hlink, Option.map_some]⟩

/-! ### What is taken -/

section Taken

variable (hs : PciResources t s)
include hs

/-- A child of a window that serves its kind is one hop away. -/
private lemma child_hop {kind : BitVec 32} (hk : IsKind kind)
    (hw : Wide w kind ∨ Narrow w kind) :
    (∃ c ∈ w.childWindows t s, c.bus = b ∧ Narrow c kind) ↔ Hop t s kind w.bus b := by
  refine ⟨fun ⟨c, hc, hbus, hnarrow⟩ => ?_, fun ⟨d, hd, q, hq, hflag, hkind, hlink⟩ => ?_⟩
  · obtain ⟨d, hchild⟩ := Window.isChild_of_mem hc
    refine ⟨d, hchild.device, c.bridge, hchild.bridge, hchild.flag, ?_, hbus ▸ hchild.link⟩
    rcases hw with hw | hw
    · obtain ⟨hkind, hspace⟩ := (hw.matches_iff hk hs).mp hchild.matches'
      have hwide : Wide w (s c.bridge).kind := ⟨hspace ▸ hw.typeMask, hspace ▸ hw.type⟩
      rw [← (hchild.narrow hkind (Or.inl hwide)).type, hnarrow.type]
    · exact (hw.matches_iff hk hs).mp hchild.matches'
  · have hmatches : (s q).matches w.typeMask w.type = true := by
      rcases hw with hw | hw
      · exact (hw.matches_iff hk hs).mpr ⟨hkind ▸ hk, by rw [hkind]⟩
      · exact (hw.matches_iff hk hs).mpr hkind
    obtain ⟨c, hc, rfl, hbus, hchild⟩ := Window.exists_child hd hq hflag hmatches hlink
    exact ⟨c, hc, hbus, hkind ▸ hchild.narrow (hkind ▸ hk) (hkind ▸ hw)⟩

/-- What is taken below a window of a bridge. -/
private lemma mem_taken_narrow {kind : BitVec 32} (hk : IsKind kind) (hw : Narrow w kind)
    (htree : IsTree t s depth w) :
    r ∈ taken t s depth w ↔ isFixed s r = false ∧ ∃ b, ReflTransGen (Hop t s kind) w.bus b ∧
      Found t s (spaceOf kind ||| IORESOURCE_PREFETCH) kind b r := by
  induction depth generalizing w with
  | zero => exact htree.elim
  | succ depth ih =>
    have hchild : ∀ c ∈ w.childWindows t s, Narrow c kind := by
      intro c hc
      obtain ⟨d, hchild⟩ := Window.isChild_of_mem hc
      have hkind := (hw.matches_iff hk hs).mp hchild.matches'
      exact hkind ▸ hchild.narrow (hkind ▸ hk) (Or.inr (hkind ▸ hw))
    rw [taken, List.mem_append, mem_takeOrder_resources htree, List.mem_flatMap, hw.typeMask, hw.type]
    constructor
    · rintro (⟨hfound, hfixed⟩ | ⟨c, hc, hr⟩)
      · exact ⟨hfixed, w.bus, .refl, hfound⟩
      · obtain ⟨hfixed, b, hpath, hfound⟩ := (ih (hchild c hc) (htree.2 c hc)).mp hr
        exact ⟨hfixed, b, .head ((child_hop hs hk (Or.inr hw)).mp ⟨c, hc, rfl, hchild c hc⟩) hpath,
          hfound⟩
    · rintro ⟨hfixed, b, hpath, hfound⟩
      rcases ReflTransGen.cases_head hpath with rfl | ⟨b₁, hhop, hpath⟩
      · exact Or.inl ⟨hfound, hfixed⟩
      · obtain ⟨c, hc, rfl, hnarrow⟩ := (child_hop hs hk (Or.inr hw)).mpr hhop
        exact Or.inr ⟨c, hc, (ih hnarrow (htree.2 c hc)).mpr ⟨hfixed, b, hpath, hfound⟩⟩

/-- What is taken below a window of a domain. -/
private lemma mem_taken_wide (hk : IsKind (s r).kind) (hw : Wide w (s r).kind)
    (htree : IsTree t s depth w) :
    r ∈ taken t s depth w ↔ isFixed s r = false ∧
      (Found t s (spaceOf (s r).kind) (spaceOf (s r).kind) w.bus r ∨
        ∃ b, TransGen (Hop t s (s r).kind) w.bus b ∧
          Found t s (spaceOf (s r).kind ||| IORESOURCE_PREFETCH) (s r).kind b r) := by
  cases depth with
  | zero => exact htree.elim
  | succ depth =>
    rw [taken, List.mem_append, mem_takeOrder_resources htree, List.mem_flatMap, hw.typeMask, hw.type]
    constructor
    · rintro (⟨hfound, hfixed⟩ | ⟨c, hc, hr⟩)
      · exact ⟨hfixed, Or.inl hfound⟩
      · obtain ⟨d, hchild⟩ := Window.isChild_of_mem hc
        obtain ⟨hkind, hspace⟩ := (hw.matches_iff hk hs).mp hchild.matches'
        have hwide : Wide w (s c.bridge).kind := ⟨hspace ▸ hw.typeMask, hspace ▸ hw.type⟩
        have hnarrow := hchild.narrow hkind (Or.inl hwide)
        obtain ⟨hfixed, b, hpath, hfound⟩ :=
          (mem_taken_narrow hs hkind hnarrow (htree.2 c hc)).mp hr
        -- the window has the kind of the resource
        obtain ⟨n, found, hsearch, hmem⟩ := hfound
        have hmatches := (belowBus_of_found hsearch hmem).2
        rw [← hnarrow.typeMask, ← hnarrow.type, hnarrow.matches_iff hkind hs] at hmatches
        rw [← hmatches] at hpath hsearch hnarrow
        have hhop := (child_hop hs hk (Or.inl hw)).mp ⟨c, hc, rfl, hnarrow⟩
        exact ⟨hfixed, Or.inr ⟨b, .head' hhop hpath, n, found, hsearch, hmem⟩⟩
    · rintro ⟨hfixed, hfound | ⟨b, hpath, hfound⟩⟩
      · exact Or.inl ⟨hfound, hfixed⟩
      · obtain ⟨b₁, hhop, hpath⟩ := TransGen.head'_iff.mp hpath
        obtain ⟨c, hc, rfl, hnarrow⟩ := (child_hop hs hk (Or.inl hw)).mpr hhop
        exact Or.inr ⟨c, hc, (mem_taken_narrow hs hk hnarrow (htree.2 c hc)).mpr
          ⟨hfixed, b, hpath, hfound⟩⟩

end Taken

/-! ### The domains -/

lemma taken_subset_below (hr : r ∈ taken t s depth w) : r ∈ below t s depth w := by
  induction depth generalizing w with
  | zero => simp [taken] at hr
  | succ depth ih =>
    rw [taken] at hr
    rcases List.mem_append.mp hr with hr | hr
    · rw [below]
      exact List.mem_append_left _ (mem_movable.mp (takeOrder_subset hr)).1
    · obtain ⟨c, hc, hr⟩ := List.mem_flatMap.mp hr
      exact mem_below_of_child hc (List.mem_cons_of_mem _ (ih hr))

/-- No resource is taken twice below a window. -/
lemma taken_nodup (htree : IsTree t s depth w) : (taken t s depth w).Nodup := by
  induction depth generalizing w with
  | zero => exact htree.elim
  | succ depth ih =>
    obtain ⟨hnode, hchildren⟩ := htree
    obtain ⟨found, hfound⟩ := Option.isSome_iff_exists.mp hnode.found
    have hnodup := hnode.nodup found hfound
    rw [taken, hfound, Option.getD_some, List.nodup_append']
    refine ⟨(takeOrder_spec hnodup).2.1.nodup_iff.mpr (hnodup.filter _),
      List.nodup_flatMap.mpr ⟨fun c hc => ih (hchildren c hc), ?_⟩, fun r hr hr' => ?_⟩
    · refine hnode.disjoint.imp fun hdisj r hr hr' => ?_
      exact hdisj (List.mem_cons_of_mem _ (taken_subset_below hr))
        (List.mem_cons_of_mem _ (taken_subset_below hr'))
    · obtain ⟨c, hc, hr'⟩ := List.mem_flatMap.mp hr'
      exact hnode.apart found hfound c hc r (mem_movable.mp (takeOrder_subset hr)).1
        (taken_subset_below hr')

/-- The resources that the calls of `allocate_resources` for all domains take. -/
def allTaken (t : Topology) (s : Store) (depth : ℕ) (root : BusId) : List ResourceId :=
  (allWindows t s root).reduceOption.flatMap (taken t s depth)

/-- What a window of a domain is. -/
structure IsDomainWindow (t : Topology) (s : Store) (d : DeviceId) (w : Window) : Prop where
  bridge : w.bridge ∈ t.resourceList d
  movable : isFixed s w.bridge = false
  bus : (t.linkList d).head? = some w.bus
  type : (w.typeMask = MEM_MASK ∧ w.type = PREF_TYPE) ∨
    (((s w.bridge).kind = IO_TYPE ∨ (s w.bridge).kind = MEM_TYPE) ∧ Wide w (s w.bridge).kind)

lemma Resource.has_kind (a : Resource) {flag : BitVec 32} (hflag : KIND &&& flag = flag) :
    a.has flag = (a.kind &&& flag != 0) := by
  rw [Resource.has, a.kind_and hflag]

/-- A resource that is in an address space is of a kind. -/
lemma PciResources.isKind (hs : PciResources t s)
    (hq : (s q).has IORESOURCE_MEM = true ∨ (s q).has IORESOURCE_IO = true) : IsKind (s q).kind := by
  rcases hs.kind q with h | h | h | h
  · exact Or.inl h
  · exact Or.inr (Or.inl h)
  · exact Or.inr (Or.inr h)
  · have hnone : ∀ flag, ( IORESOURCE_IO ||| IORESOURCE_MEM) &&& flag = flag →
        (s q).kind &&& flag = 0 := fun flag hflag => by
      rw [← hflag, ← BitVec.and_assoc, h]
      exact BitVec.zero_and
    rw [(s q).has_kind (by decide), (s q).has_kind (by decide), hnone _ (by decide),
      hnone _ (by decide)] at hq
    simp at hq

lemma domainWindow_some (hs : PciResources t s) (hq : q ∈ t.resourceList d)
    (hw : domainWindow t s d q = some (some w)) : IsDomainWindow t s d w ∧ w.bridge = q := by
  simp only [domainWindow] at hw
  split_ifs at hw with hfixed hpref hmem hio
  · obtain ⟨link, hlink, rfl⟩ := Option.map_eq_some_iff.mp (Option.some.inj hw)
    exact ⟨⟨hq, by simpa [isFixed] using hfixed, hlink, Or.inl ⟨rfl, rfl⟩⟩, rfl⟩
  · obtain ⟨link, hlink, rfl⟩ := Option.map_eq_some_iff.mp (Option.some.inj hw)
    have hkind : (s q).kind = MEM_TYPE := by
      have hkind := hs.isKind (Or.inl hmem)
      rw [(s q).has_kind (by decide)] at hmem hpref
      rcases hkind with h | h | h <;> rw [h] at hmem hpref ⊢
      · exact absurd hmem (by decide)
      · exact absurd rfl hpref
    refine ⟨⟨hq, by simpa [isFixed] using hfixed, hlink, Or.inr ⟨Or.inr hkind, ?_, ?_⟩⟩, rfl⟩
    all_goals
      dsimp only
      rw [hkind]
      decide
  · obtain ⟨link, hlink, rfl⟩ := Option.map_eq_some_iff.mp (Option.some.inj hw)
    have hkind : (s q).kind = IO_TYPE := by
      have hkind := hs.isKind (Or.inr hio)
      rw [(s q).has_kind (by decide)] at hio
      rcases hkind with h | h | h <;> rw [h] at hio ⊢
      · exact absurd hio (by decide)
      · exact absurd hio (by decide)
    refine ⟨⟨hq, by simpa [isFixed] using hfixed, hlink, Or.inr ⟨Or.inl hkind, ?_, ?_⟩⟩, rfl⟩
    all_goals
      dsimp only
      rw [hkind]
      decide

lemma mem_domainWindows (hs : PciResources t s) (hw : some w ∈ domainWindows t s d) :
    IsDomainWindow t s d w := by
  obtain ⟨q, hq, hw⟩ := List.mem_filterMap.mp hw
  exact (domainWindow_some hs hq hw).1

namespace IsDomainWindow

variable (hw : IsDomainWindow t s d w)
include hw

lemma plain : w.Plain := by
  rcases hw.type with ⟨hmask, htype⟩ | ⟨hkind, hwide⟩
  · exact ⟨by simp [hmask], by rw [hmask, htype]; decide⟩
  · exact hwide.plain (hkind.imp_right Or.inl)

lemma bus_mem : w.bus ∈ t.linkList d := List.mem_of_mem_head? hw.bus

lemma attached (hd : d ∈ domains t root) : Attached t w :=
  ⟨root, d, (List.mem_filter.mp hd).1, hw.bridge, hw.bus_mem⟩

lemma isTree (h : DeviceTree t rank height) (hs : PciResources t s) (hd : d ∈ domains t root)
    (hdepth : height ≤ rank root + depth) : IsTree t s depth w := by
  have := h.rank_link (List.mem_filter.mp hd).1 hw.bus_mem
  exact isTree_of_attached h hs hw.plain (hw.attached hd) (by omega)

/-- The window of a domain for prefetchable memory alone takes nothing. -/
lemma wide_of_matches (hr : (s r).matches w.typeMask w.type = true) :
    ((s w.bridge).kind = IO_TYPE ∨ (s w.bridge).kind = MEM_TYPE) ∧ Wide w (s w.bridge).kind := by
  rcases hw.type with ⟨hmask, htype⟩ | hwide
  · rw [hw.plain.matches_iff, hmask, htype] at hr
    have hpref := congrArg (· &&& IORESOURCE_PREFETCH) hr
    simp only [BitVec.and_assoc] at hpref
    rw [show MEM_MASK &&& IORESOURCE_PREFETCH = 0#32 by decide, BitVec.and_zero] at hpref
    exact absurd hpref (by decide)
  · exact hwide

/-- The window takes the resources that it serves. -/
lemma mem_taken (hs : PciResources t s) (htree : IsTree t s depth w) :
    r ∈ taken t s depth w ↔ (IsKind (s r).kind ∧ Wide w (s r).kind) ∧ isFixed s r = false ∧
      (Found t s (spaceOf (s r).kind) (spaceOf (s r).kind) w.bus r ∨
        ∃ b, TransGen (Hop t s (s r).kind) w.bus b ∧
          Found t s (spaceOf (s r).kind ||| IORESOURCE_PREFETCH) (s r).kind b r) := by
  constructor
  · intro hr
    have hmatches := (belowBus_of_below (taken_subset_below hr)).2
    obtain ⟨hkind, hwide⟩ := hw.wide_of_matches hmatches
    obtain ⟨hkind', hspace⟩ := (hwide.matches_iff (hkind.imp_right Or.inl) hs).mp hmatches
    have hwide' : Wide w (s r).kind := ⟨hspace ▸ hwide.typeMask, hspace ▸ hwide.type⟩
    exact ⟨⟨hkind', hwide'⟩, (mem_taken_wide hs hkind' hwide' htree).mp hr⟩
  · rintro ⟨⟨hkind, hwide⟩, hr⟩
    exact (mem_taken_wide hs hkind hwide htree).mpr hr

end IsDomainWindow

/-- Which resources the shape of the store leads to is all that the windows depend on. -/
lemma domainWindows_congr (hs : SameShape s s') : domainWindows t s' d = domainWindows t s d := by
  have hwindow : domainWindow t s' d = domainWindow t s d := by
    funext q
    simp only [domainWindow, hs.has_eq (show ~~~STATUS &&& IORESOURCE_FIXED = _ by decide),
      hs.has_eq (show ~~~STATUS &&& IORESOURCE_PREFETCH = _ by decide),
      hs.has_eq (show ~~~STATUS &&& IORESOURCE_MEM = _ by decide),
      hs.has_eq (show ~~~STATUS &&& IORESOURCE_IO = _ by decide)]
  rw [domainWindows, hwindow, domainWindows]

lemma allWindows_congr (hs : SameShape s s') : allWindows t s' root = allWindows t s root := by
  have hwindows : domainWindows t s' = domainWindows t s := funext fun _ => domainWindows_congr hs
  rw [allWindows, hwindows, allWindows]

section Domains

variable (h : DeviceTree t rank height) (hs : PciResources t s)
  (hdomain : ∀ d ∈ domains t root, PciDomain t s d)

lemma mem_allWindows (hs : PciResources t s) :
    w ∈ (allWindows t s root).reduceOption → ∃ d ∈ domains t root, IsDomainWindow t s d w := by
  intro hw
  obtain ⟨d, hd, hw⟩ := List.mem_flatMap.mp (List.reduceOption_mem_iff.mp hw)
  exact ⟨d, hd, mem_domainWindows hs hw⟩

/-- A domain has a window for every address space. -/
private lemma exists_window (hd : PciDomain t s d) {kind : BitVec 32} (hk : IsKind kind)
    (hbus : (t.linkList d).head? = some b) :
    ∃ w, some w ∈ domainWindows t s d ∧ w.bus = b ∧ Wide w kind := by
  have hwindow : ∀ q ∈ t.resourceList d, isFixed s q = false →
      (s q).kind = IO_TYPE ∨ (s q).kind = MEM_TYPE → spaceOf (s q).kind = spaceOf kind →
      ∃ w, some w ∈ domainWindows t s d ∧ w.bus = b ∧ Wide w kind := by
    intro q hq hfixed hkind hspace
    refine ⟨⟨b, q, spaceOf kind, spaceOf kind⟩, List.mem_filterMap.mpr ⟨q, hq, ?_⟩, rfl, rfl, rfl⟩
    have hfixed' : (s q).has IORESOURCE_FIXED = false := hfixed
    simp only [domainWindow, hfixed', (s q).has_kind (show KIND &&& IORESOURCE_PREFETCH = _ by decide),
      (s q).has_kind (show KIND &&& IORESOURCE_MEM = _ by decide),
      (s q).has_kind (show KIND &&& IORESOURCE_IO = _ by decide), hbus, ← hspace]
    rcases hkind with hkind | hkind <;> rw [hkind] <;> rfl
  rcases hk with rfl | rfl | rfl
  · obtain ⟨q, hq, hfixed, hkind⟩ := hd.io
    exact hwindow q hq hfixed (Or.inl hkind) (by rw [hkind])
  · obtain ⟨q, hq, hfixed, hkind⟩ := hd.mem
    exact hwindow q hq hfixed (Or.inr hkind) (by rw [hkind])
  · obtain ⟨q, hq, hfixed, hkind⟩ := hd.mem
    exact hwindow q hq hfixed (Or.inr hkind) (by rw [hkind]; decide)

include h hs hdomain in
/-- What the domains take. -/
lemma mem_allTaken (hdepth : height ≤ rank root + depth) (hk : IsKind (s r).kind) :
    r ∈ allTaken t s depth root ↔ Served t s root r := by
  rw [allTaken, List.mem_flatMap]
  constructor
  · rintro ⟨w, hw, hr⟩
    obtain ⟨d, hd, hw⟩ := mem_allWindows hs hw
    obtain ⟨-, hfixed, hpath⟩ := (hw.mem_taken hs (hw.isTree h hs hd hdepth)).mp hr
    exact ⟨hfixed, d, hd, w.bus, hw.bus, hpath⟩
  · rintro ⟨hfixed, d, hd, b, hbus, hpath⟩
    obtain ⟨w, hmem, rfl, hwide⟩ := exists_window (hdomain d hd) hk hbus
    have hw := mem_domainWindows hs hmem
    refine ⟨w, List.reduceOption_mem_iff.mpr (List.mem_flatMap.mpr ⟨d, hd, hmem⟩), ?_⟩
    exact (hw.mem_taken hs (hw.isTree h hs hd hdepth)).mpr ⟨⟨hk, hwide⟩, hfixed, hpath⟩

include h hs in
/-- The windows of domains are apart, if a domain has one window of a kind. -/
lemma allWindows_disjoint (hunique : ∀ d ∈ domains t root, ∀ q ∈ t.resourceList d,
      ∀ q' ∈ t.resourceList d, isFixed s q = false → isFixed s q' = false →
      (s q).kind = (s q').kind → q = q') (depth : ℕ) :
    (allWindows t s root).reduceOption.Pairwise fun w w' =>
      (region t s depth w).Disjoint (region t s depth w') := by
  rw [allWindows, List.reduceOption, List.pairwise_filterMap, List.pairwise_flatMap]
  refine ⟨fun d hd => ?_, List.Pairwise.imp_of_mem ?_ ((h.children_nodup root).filter _)⟩
  · rw [domainWindows, List.pairwise_filterMap]
    refine List.Pairwise.imp_of_mem ?_ (h.resources_nodup d)
    intro q q' hq hq' hne x hx x' hx' w hw w' hw' r hr hr'
    rw [id] at hw hw'
    subst hw hw'
    obtain ⟨hwindow, rfl⟩ := domainWindow_some hs hq hx
    obtain ⟨hwindow', rfl⟩ := domainWindow_some hs hq' hx'
    have hroot := (List.mem_filter.mp hd).1
    rcases List.mem_cons.mp hr with rfl | hr <;> rcases List.mem_cons.mp hr' with heq | hr'
    · exact hne heq
    · exact h.not_below_link hroot hq hroot hwindow'.bus_mem (belowBus_of_below hr').1
    · exact h.not_below_link hroot (heq ▸ hq') hroot hwindow.bus_mem (belowBus_of_below hr).1
    · -- both windows serve the resource, so they are of one kind
      have hmatches := (belowBus_of_below hr).2
      have hmatches' := (belowBus_of_below hr').2
      obtain ⟨hkind, hwide⟩ := hwindow.wide_of_matches hmatches
      obtain ⟨hkind', hwide'⟩ := hwindow'.wide_of_matches hmatches'
      have hspace := ((hwide.matches_iff (hkind.imp_right Or.inl) hs).mp hmatches).2
      have hspace' := ((hwide'.matches_iff (hkind'.imp_right Or.inl) hs).mp hmatches').2
      rw [hspace] at hspace'
      refine hne (hunique d hd _ hq _ hq' hwindow.movable hwindow'.movable ?_)
      rcases hkind with h | h <;> rcases hkind' with h' | h' <;> rw [h, h'] at hspace' ⊢
      all_goals exact absurd hspace' (by decide)
  · intro d d' hd hd' hne x hx x' hx' w hw w' hw' r hr hr'
    rw [id] at hw hw'
    subst hw hw'
    have hbelow : ∀ {e v}, IsDomainWindow t s e v → r ∈ region t s depth v → BelowDevice t e r := by
      intro e v hv hrv
      rcases List.mem_cons.mp hrv with rfl | hrv
      · exact Or.inl hv.bridge
      · exact Or.inr ⟨_, hv.bus_mem, (belowBus_of_below hrv).1⟩
    exact hne (h.device_unique (List.mem_filter.mp hd).1 (List.mem_filter.mp hd').1
      (hbelow (mem_domainWindows hs hx) hr) (hbelow (mem_domainWindows hs hx') hr'))

include h hs hdomain in
/-- No resource is taken twice. -/
lemma allTaken_nodup (hdepth : height ≤ rank root + depth) : (allTaken t s depth root).Nodup := by
  refine List.nodup_flatMap.mpr ⟨fun w hw => ?_, ?_⟩
  · obtain ⟨d, hd, hw⟩ := mem_allWindows hs hw
    exact taken_nodup (hw.isTree h hs hd hdepth)
  · refine (allWindows_disjoint h hs (fun d hd => (hdomain d hd).unique) depth).imp
      fun hdisj r hr hr' => ?_
    exact hdisj (List.mem_cons_of_mem _ (taken_subset_below hr))
      (List.mem_cons_of_mem _ (taken_subset_below hr'))

/-- No domain is without a link. -/
private lemma none_notMem_allWindows (hlink : ∀ d ∈ domains t root, t.linkList d ≠ []) :
    none ∉ allWindows t s root := by
  intro hnone
  obtain ⟨d, hd, hnone⟩ := List.mem_flatMap.mp hnone
  obtain ⟨q, hq, hnone⟩ := List.mem_filterMap.mp hnone
  obtain ⟨link, hhead⟩ := Option.ne_none_iff_exists'.mp
    (show (t.linkList d).head? ≠ none by simpa using hlink d hd)
  simp only [domainWindow, hhead, Option.map_some] at hnone
  split_ifs at hnone <;> simp at hnone

lemma allWindows_eq (hlink : ∀ d ∈ domains t root, t.linkList d ≠ []) :
    allWindows t s root = (allWindows t s root).reduceOption.map some :=
  (map_some_reduceOption (none_notMem_allWindows hlink)).symm

end Domains

/-! ### Between the passes -/

lemma foldlM_ends {σ α : Type} {f : σ → α → Option σ} {R : σ → σ → Prop}
    (hrefl : ∀ x, R x x) (htrans : ∀ {x y z}, R x y → R y z → R x z) {l : List α}
    (hf : ∀ a ∈ l, ∀ x, ∃ y, f x a = some y ∧ R x y) (x : σ) : ∃ y, l.foldlM f x = some y ∧ R x y := by
  induction l generalizing x with
  | nil => exact ⟨x, rfl, hrefl x⟩
  | cons a l ih =>
    obtain ⟨y, hy, hxy⟩ := hf a (by simp) x
    obtain ⟨z, hz, hyz⟩ := ih (fun b hb => hf b (by simp [hb])) y
    exact ⟨z, by rw [List.foldlM_cons, hy]; exact hz, htrans hxy hyz⟩

private lemma foldl_sameShape {α : Type} {f : Store → α → Store} (hf : ∀ s a, SameShape s (f s a))
    (l : List α) (s : Store) : SameShape s (l.foldl f s) := by
  induction l generalizing s with
  | nil => exact .refl s
  | cons a l ih => exact (hf s a).trans (ih _)

lemma DeviceTree.constrainResources_ends (h : DeviceTree t rank height) (hd : d ∈ t.children b)
    (hdepth : height ≤ rank b + depth) (limits : Constraints) :
    ∃ limits', constrainResources t s depth d limits = some limits' := by
  induction depth generalizing b d limits with
  | zero =>
    have := h.rank_lt hd
    omega
  | succ depth ih =>
    rw [constrainResources]
    obtain ⟨limits', heq, -⟩ := foldlM_ends (R := fun _ _ => True) (fun _ => trivial)
      (fun _ _ => trivial) (l := t.linkList d) (f := fun limits link =>
        (t.children link).foldlM (fun limits child =>
          if t.enabled child then constrainResources t s depth child limits else some limits)
          limits) (fun link hlink limits => by
        refine foldlM_ends (fun _ => trivial) (fun _ _ => trivial) (fun child hchild limits => ?_) limits
        have := h.rank_link hd hlink
        split_ifs
        · obtain ⟨limits', heq⟩ := ih hchild (by omega) limits
          exact ⟨limits', heq, trivial⟩
        · exact ⟨limits, rfl, trivial⟩) ((t.resourceList d).foldl (constrainResource s) limits)
    exact ⟨limits', heq⟩

lemma applyLimit_sameShape (limits : Constraints) (s : Store) (r : ResourceId) :
    SameShape s (applyLimit limits s r) := by
  unfold applyLimit
  split_ifs
  · exact .refl s
  · cases limits.of (s r) with
    | none => exact .refl s
    | some lim => exact SameShape.modify rfl rfl

lemma moveToTop_sameShape (s : Store) (r : ResourceId) : SameShape s (moveToTop s r) := by
  unfold moveToTop
  split_ifs
  · exact .refl s
  · exact SameShape.modify rfl rfl

/-- The domains are prepared, and the same resources are led to. -/
lemma prepareDomains_ends (h : DeviceTree t rank height) (hs : PciResources t s)
    (hlink : ∀ d ∈ domains t root, t.linkList d ≠ []) (hdepth : height ≤ rank root + depth) :
    ∃ s', prepareDomains t depth root s = some s' ∧ SameShape s s' := by
  obtain ⟨s₁, heq₁, h₁⟩ := forWindows_run (allWindows t s root).reduceOption
    (f := computeResources t depth) (x := s) (P := fun _ x => SameShape s x)
    (fun p w q hws x hx => by
      have hmem : w ∈ (allWindows t s root).reduceOption := by
        rw [hws]
        simp
      obtain ⟨d, hd, hw⟩ := mem_allWindows hs hmem
      have htree := (hw.isTree h hs hd hdepth).congr hx hw.plain.typed
      obtain ⟨x', heq, hx'⟩ := computeResources_ends htree hw.plain.typed
      exact ⟨x', heq, hx.trans hx'⟩) (.refl s)
  obtain ⟨s₂, heq₂, h₂⟩ := foldlM_ends SameShape.refl SameShape.trans (l := domains t root)
    (f := avoidFixedResources t depth) (fun d hd s => by
      obtain ⟨limits, heq⟩ := h.constrainResources_ends (s := s) (List.mem_filter.mp hd).1 hdepth
        ((t.resourceList d).foldl (initialLimit s) ⟨maximumSize, maximumSize, maximumSize⟩)
      refine ⟨_, by rw [avoidFixedResources, heq]; rfl, ?_⟩
      exact foldl_sameShape (applyLimit_sameShape limits) _ s) s₁
  refine ⟨_, ?_, (h₁.trans h₂).trans (foldl_sameShape (fun s d =>
    foldl_sameShape moveToTop_sameShape (t.resourceList d) s) (domains t root) s₂)⟩
  rw [prepareDomains, allWindows_eq hlink, heq₁, Option.bind_some, heq₂]
  rfl

/-! ### All passes -/

lemma SameShape.kind_eq (hs : SameShape s s') (r : ResourceId) : (s' r).kind = (s r).kind :=
  hs.and_eq (by decide) r

lemma PciResources.congr (h : PciResources t s) (hs : SameShape s s') : PciResources t s' := by
  have hbridge : ∀ r, (s' r).has IORESOURCE_BRIDGE = (s r).has IORESOURCE_BRIDGE :=
    hs.has_eq (by decide)
  have hsub : ∀ r, (s' r).has IORESOURCE_SUBTRACTIVE = (s r).has IORESOURCE_SUBTRACTIVE :=
    hs.has_eq (by decide)
  have hio : ∀ r, (s' r).has IORESOURCE_IO = (s r).has IORESOURCE_IO := hs.has_eq (by decide)
  refine ⟨?_, ?_, ?_, ?_, ?_⟩
  · simpa only [hs.kind_eq] using h.kind
  · simpa only [hbridge, (hs _).1] using h.link
  · simpa only [hbridge, hs.kind_eq, (hs _).1] using h.window
  · simpa only [hbridge, hsub] using h.positive
  · simpa only [hsub, hio, (hs _).1] using h.subtractive

lemma PciDomain.congr (h : PciDomain t s d) (hs : SameShape s s') : PciDomain t s' d := by
  refine ⟨h.link, ?_, ?_, ?_⟩
  · simpa only [hs.isFixed_eq, hs.kind_eq] using h.io
  · simpa only [hs.isFixed_eq, hs.kind_eq] using h.mem
  · simpa only [hs.isFixed_eq, hs.kind_eq] using h.unique

lemma found_congr (hs : SameShape s s') (hmask : ~~~STATUS &&& typeMask = typeMask) :
    Found t s' typeMask type b r ↔ Found t s typeMask type b r := by
  simp only [Found, hs.searchBusResources_eq hmask]

lemma served_congr (hs : SameShape s s') (hk : IsKind (s r).kind) :
    Served t s' root r ↔ Served t s root r := by
  have hhop : ∀ kind, Hop t s' kind = Hop t s kind := fun kind => by
    funext b b'
    simp only [Hop, hs.has_eq (show ~~~STATUS &&& IORESOURCE_BRIDGE = _ by decide), hs.kind_eq,
      (hs _).1]
  have hspace : ~~~STATUS &&& spaceOf (s r).kind = spaceOf (s r).kind ∧
      ~~~STATUS &&& (spaceOf (s r).kind ||| IORESOURCE_PREFETCH) =
        spaceOf (s r).kind ||| IORESOURCE_PREFETCH := by
    rcases hk with h | h | h <;> rw [h] <;> decide
  simp only [Served, hs.isFixed_eq, hs.kind_eq, hhop, found_congr hs hspace.1,
    found_congr hs hspace.2]

/-- A resource is taken by one pass, and assigned or reported, exactly if it is on the bus of a
domain, or windows of its kind lead to its bus. -/
theorem devConfigure_complete_iff (h : DeviceTree t rank height) (hs : PciResources t s)
    (hdomain : ∀ d ∈ domains t root, PciDomain t s d) (hdepth : height ≤ rank root + depth)
    (hk : IsKind (s r).kind) :
    ∃ s₁ x, prepareDomains t depth root s = some s₁ ∧ devConfigure t depth root s = some x ∧
      (((allTaken t s₁ depth root).count r = 1 ∧ Settled x r) ↔ Served t s root r) := by
  obtain ⟨s₁, heq, hshape⟩ := prepareDomains_ends h hs (fun d hd => (hdomain d hd).link) hdepth
  have hs₁ := hs.congr hshape
  have hdomain₁ : ∀ d ∈ domains t root, PciDomain t s₁ d := fun d hd => (hdomain d hd).congr hshape
  obtain ⟨x, heq', -, hsettled⟩ := forWindows_run (allWindows t s₁ root).reduceOption
    (f := allocateResources t depth) (x := (s₁, []))
    (P := fun p x => SameShape s₁ x.1 ∧ ∀ w ∈ p, ∀ q ∈ taken t s₁ depth w, Settled x q)
    (fun p w q hws x ⟨hx, hsettled⟩ => by
      have hmem : w ∈ (allWindows t s₁ root).reduceOption := by
        rw [hws]
        simp
      obtain ⟨d, hd, hw⟩ := mem_allWindows hs₁ hmem
      have htree := hw.isTree h hs₁ hd hdepth
      obtain ⟨x', heq, hx', hkeep, hsettled'⟩ := allocateResources_settles
        (htree.congr hx hw.plain.typed) hw.plain.typed x.2
      refine ⟨x', heq, hx.trans hx', fun v hv q hq => ?_⟩
      rcases List.mem_append.mp hv with hv | hv
      · exact hkeep q (hsettled v hv q hq)
      · obtain rfl := List.mem_singleton.mp hv
        exact hsettled' q ((mem_taken_congr hx hw.plain.typed htree).mpr hq)) ⟨.refl s₁, by simp⟩
  have hkind : IsKind (s₁ r).kind := (hshape.kind_eq r).symm ▸ hk
  refine ⟨s₁, x, heq, ?_, ?_⟩
  · rw [devConfigure, heq, Option.bind_some,
      allWindows_eq fun d hd => (hdomain d hd).link]
    exact heq'
  · rw [← served_congr hshape hk, ← mem_allTaken h hs₁ hdomain₁ hdepth hkind]
    constructor
    · intro hcount
      exact List.count_pos_iff.mp (by omega)
    · intro hr
      refine ⟨List.count_eq_one_of_mem (allTaken_nodup h hs₁ hdomain₁ hdepth) hr, ?_⟩
      obtain ⟨w, hw, hr⟩ := List.mem_flatMap.mp hr
      exact hsettled w hw r hr

/-! ### A bridge with and without a prefetchable window -/

/-- A domain, a bridge on its bus, and a device behind the bridge. -/
def chainTopology : Topology where
  children bus := if bus < 3 then [bus] else []
  enabled _ := true
  isDomain dev := dev == 0
  resourceList dev := if dev = 0 then [0, 1] else if dev = 1 then [2, 3] else if dev = 2 then [4] else []
  linkList dev := if dev < 2 then [dev + 1] else []
  linkNum _ := 0

/-- The bridge has a window for memory and another one; the device has prefetchable memory. -/
def chainStore (window : BitVec 32) : Store
  | 0 => ⟨0, 0, 0xffff, IO_TYPE, 0, 0, 0⟩
  | 1 => ⟨0, 0, 0xffffffff, MEM_TYPE, 0, 0, 0⟩
  | 2 => ⟨0, 0, 0xffffffff, MEM_TYPE ||| IORESOURCE_BRIDGE, 0, 20, 20⟩
  | 3 => ⟨0, 0, 0xffffffff, window ||| IORESOURCE_BRIDGE, 0, 20, 20⟩
  | 4 => ⟨0, 0x1000, 0xffffffff, PREF_TYPE, 0, 12, 12⟩
  | _ => ⟨0, 0, 0, 0, 0, 0, 0⟩

private lemma chainTopology_children {b d : ℕ} (h : d ∈ chainTopology.children b) : d = b ∧ b < 3 := by
  simp only [chainTopology] at h
  split_ifs at h with hb <;> simp_all

private lemma chainTopology_links {b d : ℕ} (h : b ∈ chainTopology.linkList d) : b = d + 1 := by
  simp only [chainTopology] at h
  split_ifs at h <;> simp_all

private lemma chainTopology_owner {r d : ℕ} (h : r ∈ chainTopology.resourceList d) : d = r / 2 := by
  simp only [chainTopology] at h
  split_ifs at h with h₀ h₁ h₂
  · rcases List.mem_pair.mp h with rfl | rfl <;> exact h₀
  · rcases List.mem_pair.mp h with rfl | rfl <;> exact h₁
  · obtain rfl := List.mem_singleton.mp h
    exact h₂
  · simp at h

lemma chainTopology_tree : DeviceTree chainTopology id 3 := by
  refine ⟨fun h h' => ?_, fun h h' => ?_, fun {d d' r} h h' => ?_, fun h h' => ?_, fun h => ?_,
    fun b => ?_, fun d => ?_⟩
  · rw [← (chainTopology_children h).1, ← (chainTopology_children h').1]
  · exact Nat.add_right_cancel ((chainTopology_links h).symm.trans (chainTopology_links h'))
  · exact (chainTopology_owner h).trans (chainTopology_owner h').symm
  · rw [chainTopology_links h', (chainTopology_children h).1]
    rfl
  · exact (chainTopology_children h).2
  · simp only [chainTopology]
    split_ifs <;> simp
  · simp only [chainTopology]
    split_ifs <;> simp

lemma chainStore_pciResources {window : BitVec 32} (hwindow : window = IO_TYPE ∨ window = PREF_TYPE) :
    PciResources chainTopology (chainStore window) := by
  have hempty : ∀ n : ℕ, chainTopology.resourceList (n + 3) = [] := fun n => by
    simp [chainTopology]
  rcases hwindow with rfl | rfl
  all_goals
    refine ⟨?_, ?_, ?_, ?_, ?_⟩
    · rintro (_ | _ | _ | _ | _ | r)
      iterate 5 decide
      have hrest : ∀ window, chainStore window (r + 5) = ⟨0, 0, 0, 0, 0, 0, 0⟩ := fun _ => rfl
      rw [hrest]
      decide
    all_goals
      rintro (_ | _ | _ | n)
      · decide
      · decide
      · decide
      · simp [hempty]

lemma chainStore_pciDomain {window : BitVec 32} (hwindow : window = IO_TYPE ∨ window = PREF_TYPE) :
    ∀ d ∈ domains chainTopology 0, PciDomain chainTopology (chainStore window) d := by
  intro d hd
  obtain rfl : d = 0 := by simpa [domains, chainTopology] using hd
  rcases hwindow with rfl | rfl <;> exact ⟨by decide, by decide, by decide, by decide⟩

theorem devConfigure_complete_iff_chain :
    ∃ s₁ x, prepareDomains chainTopology 3 0 (chainStore PREF_TYPE) = some s₁ ∧
      devConfigure chainTopology 3 0 (chainStore PREF_TYPE) = some x ∧
      (allTaken chainTopology s₁ 3 0).count 4 = 1 ∧ Settled x 4 := by
  obtain ⟨s₁, x, heq, heq', hiff⟩ := devConfigure_complete_iff chainTopology_tree
    (chainStore_pciResources (Or.inr rfl)) (chainStore_pciDomain (Or.inr rfl))
    (show 3 ≤ id 0 + 3 by decide) (show IsKind (chainStore PREF_TYPE 4).kind from Or.inr (Or.inr rfl))
  refine ⟨s₁, x, heq, heq', hiff.mpr ⟨rfl, 0, by decide, 1, rfl, Or.inr ⟨2, ?_, 1, [4], ?_⟩⟩⟩
  · exact .single ⟨1, by decide, 3, by decide, by rfl, by rfl, by rfl⟩
  · exact ⟨by rfl, by simp⟩

/-- Without the prefetchable window, no pass takes the resource, and it is left without a word. -/
theorem not_complete_of_no_prefetchable_window :
    isFixed (chainStore IO_TYPE) 4 = false ∧ (chainStore IO_TYPE 4).kind = PREF_TYPE ∧
      (chainStore IO_TYPE 4).size ≠ 0 ∧
      ((prepareDomains chainTopology 3 0 (chainStore IO_TYPE)).map fun s₁ =>
        (allTaken chainTopology s₁ 3 0).count 4) = some 0 ∧
      ((devConfigure chainTopology 3 0 (chainStore IO_TYPE)).map fun x =>
        ((x.1 4).has IORESOURCE_ASSIGNED, decide (4 ∈ x.2), (x.1 4).base)) =
        some (false, false, 0) := by
  refine ⟨by decide, by decide, by decide, by decide +kernel, by decide +kernel⟩

end ApuBios.Allocator
