import ApuBios.Device.Allocator.Basic
import ApuBios.Library.Selection

/-!
# The order in which resources are taken

The allocator looks at the flags and the index of resources to find out which of them are on a
bus. What it changes leaves these the same (`SameShape`), so the loops over `largest_resource`
take the resources of a bus one by one, in descending order of alignment and size
(`forLargest_eq`).
-/

namespace ApuBios.Allocator

open Selection

/-- The flags that the allocator changes. -/
def STATUS : BitVec 32 := IORESOURCE_ASSIGNED ||| IORESOURCE_STORED

/-- The stores lead to the same resources. -/
def SameShape (s s' : Store) : Prop :=
  ∀ r, (s' r).index = (s r).index ∧ (s' r).flags &&& ~~~STATUS = (s r).flags &&& ~~~STATUS

variable {t : Topology} {s s' s'' : Store} {w : Window} {depth : ℕ}

lemma SameShape.refl (s : Store) : SameShape s s := fun _ => ⟨rfl, rfl⟩

lemma SameShape.symm (h : SameShape s s') : SameShape s' s := fun r => ⟨(h r).1.symm, (h r).2.symm⟩

lemma SameShape.trans (h : SameShape s s') (h' : SameShape s' s'') : SameShape s s'' :=
  fun r => ⟨(h' r).1.trans (h r).1, (h' r).2.trans (h r).2⟩

lemma SameShape.and_eq (h : SameShape s s') {mask : BitVec 32} (hmask : ~~~STATUS &&& mask = mask)
    (r : ResourceId) : (s' r).flags &&& mask = (s r).flags &&& mask := by
  rw [← hmask, ← BitVec.and_assoc, ← BitVec.and_assoc, (h r).2]

lemma SameShape.has_eq (h : SameShape s s') {flag : BitVec 32} (hflag : ~~~STATUS &&& flag = flag)
    (r : ResourceId) : (s' r).has flag = (s r).has flag := by
  rw [Resource.has, h.and_eq hflag, Resource.has]

lemma SameShape.matches_eq (h : SameShape s s') {typeMask type : BitVec 32}
    (hmask : ~~~STATUS &&& typeMask = typeMask) (r : ResourceId) :
    (s' r).matches typeMask type = (s r).matches typeMask type := by
  rw [Resource.matches, h.and_eq hmask, Resource.matches]

/-- The type mask of a window selects none of the flags that change. -/
def Window.Typed (w : Window) : Prop := ~~~STATUS &&& w.typeMask = w.typeMask

section Search

variable {typeMask type : BitVec 32}
  (hmatches : ∀ r, (s' r).matches typeMask type = (s r).matches typeMask type)
  (hsub : ∀ r, (s' r).has IORESOURCE_SUBTRACTIVE = (s r).has IORESOURCE_SUBTRACTIVE)
  (hindex : ∀ r, (s' r).index = (s r).index)

include hmatches hsub hindex

lemma searchDevice_congr {search : BusId → Option (List ResourceId)} {dev : DeviceId}
    (l : List ResourceId) :
    searchDevice t search s' typeMask type dev l = searchDevice t search s typeMask type dev l := by
  induction l with
  | nil => rfl
  | cons r l ih => rw [searchDevice, searchDevice, hmatches, hsub, hindex, ih]

/-- A search comes to the same resources where what it looks at is the same. -/
lemma searchBusResources_congr (bus : BusId) :
    searchBusResources t s' typeMask type depth bus =
      searchBusResources t s typeMask type depth bus := by
  induction depth generalizing bus with
  | zero => rfl
  | succ depth ih =>
    have hsearch : searchBusResources t s' typeMask type depth =
        searchBusResources t s typeMask type depth := funext ih
    simp only [searchBusResources, hsearch, searchDevice_congr hmatches hsub hindex]

end Search

lemma SameShape.searchBusResources_eq (h : SameShape s s') {typeMask type : BitVec 32}
    (hmask : ~~~STATUS &&& typeMask = typeMask) (bus : BusId) :
    searchBusResources t s' typeMask type depth bus =
      searchBusResources t s typeMask type depth bus :=
  searchBusResources_congr (h.matches_eq hmask) (h.has_eq (by decide)) (fun r => (h r).1) bus

lemma Window.resources_congr (h : SameShape s s') (hw : w.Typed) :
    w.resources t depth s' = w.resources t depth s :=
  h.searchBusResources_eq hw w.bus

lemma Window.children_congr (h : SameShape s s') (hw : w.Typed) :
    w.children t s' = w.children t s := by
  have hbridge : ∀ r, (s' r).has IORESOURCE_BRIDGE = (s r).has IORESOURCE_BRIDGE :=
    h.has_eq (by decide)
  have hprefetch : ∀ r, (s' r).flags &&& IORESOURCE_PREFETCH = (s r).flags &&& IORESOURCE_PREFETCH :=
    h.and_eq (by decide)
  simp only [Window.children, hbridge, h.matches_eq hw, hprefetch, fun r => (h r).1]

lemma Window.typed_of_mem_children (hw : w.Typed) {c : Window} (hc : some c ∈ w.children t s) :
    c.Typed := by
  simp only [Window.children, List.mem_flatMap] at hc
  obtain ⟨dev, -, hc⟩ := hc
  split_ifs at hc with hlinks
  · simp at hc
  · obtain ⟨r, -, hr⟩ := List.mem_map.mp hc
    obtain ⟨link, -, rfl⟩ := Option.map_eq_some_iff.mp hr
    have hprefetch : ~~~STATUS &&& IORESOURCE_PREFETCH = IORESOURCE_PREFETCH := by decide
    rw [Window.Typed, BitVec.and_or_distrib_left, hw, hprefetch]

/-! ### Picking the largest resource -/

/-- Resources are taken by alignment, and by size if they are aligned alike. -/
def sortKey (s : Store) (r : ResourceId) : ℕ ×ₗ ℕ := toLex ((s r).align, (s r).size)

def isFixed (s : Store) (r : ResourceId) : Bool := (s r).has IORESOURCE_FIXED

/-- The resources that are not fixed. -/
def movable (s : Store) (l : List ResourceId) : List ResourceId := l.filter (!isFixed s ·)

private lemma larger_iff {x y : ResourceId} :
    ((s x).align < (s y).align || ((s x).align == (s y).align && (s x).size < (s y).size)) =
      decide (sortKey s x < sortKey s y) := by
  rw [Bool.eq_iff_iff]
  simp [sortKey, Prod.Lex.toLex_lt_toLex]

private lemma alike_iff {x y : ResourceId} :
    ((s x).align == (s y).align && (s x).size == (s y).size) =
      decide (sortKey s x = sortKey s y) := by
  rw [Bool.eq_iff_iff]
  simp [sortKey]

private def toSelection (state : PickLargestState) : Selection.State ResourceId :=
  ⟨state.last, state.result, state.seenLast⟩

/-- A resource that is not fixed is visited. -/
private lemma pickLargestResource_eq {state : PickLargestState} {r : ResourceId}
    (hr : isFixed s r = false) :
    toSelection (pickLargestResource s state r) = visit (sortKey s) (toSelection state) r := by
  have hfixed : ¬(s r).has IORESOURCE_FIXED = true := by simpa [isFixed] using hr
  obtain ⟨last, result, seen⟩ := state
  change _ = visit (sortKey s) ⟨last, result, seen⟩ r
  simp only [pickLargestResource, visit, if_neg hfixed, larger_iff, alike_iff]
  split_ifs <;> rfl

private lemma pickLargestResource_fixed {state : PickLargestState} {r : ResourceId}
    (hlast : ∀ y ∈ state.last, isFixed s y = false) (hr : isFixed s r = true) :
    pickLargestResource s state r = state := by
  have hne : state.last ≠ some r := fun h => by simpa [hr] using hlast r h
  rw [pickLargestResource, if_neg hne]
  exact if_pos hr

private lemma pickLargestResource_last {state : PickLargestState} {r : ResourceId} :
    (pickLargestResource s state r).last = state.last := by
  unfold pickLargestResource
  split_ifs <;> rfl

private lemma foldl_pickLargestResource (l : List ResourceId) {state : PickLargestState}
    (hlast : ∀ y ∈ state.last, isFixed s y = false) :
    toSelection (l.foldl (pickLargestResource s) state) =
      (movable s l).foldl (visit (sortKey s)) (toSelection state) := by
  induction l generalizing state with
  | nil => rfl
  | cons r l ih =>
    cases hr : isFixed s r with
    | true =>
      rw [movable, List.filter_cons_of_neg (by simp [hr]), List.foldl_cons,
        pickLargestResource_fixed hlast hr]
      exact ih hlast
    | false =>
      rw [movable, List.filter_cons_of_pos (by simp [hr]), List.foldl_cons, List.foldl_cons,
        ← pickLargestResource_eq hr]
      exact ih (by rwa [pickLargestResource_last])

/-- The resource that is picked is the one selected among those that are not fixed. -/
lemma largestResource_eq {found : List ResourceId} (hfound : w.resources t depth s = some found)
    {last : Option ResourceId} (hlast : ∀ y ∈ last, isFixed s y = false) :
    largestResource t depth s w last = some (largest (sortKey s) last (movable s found)) := by
  have hfoldl : toSelection (found.foldl (pickLargestResource s) ⟨last, none, false⟩) =
      (movable s found).foldl (visit (sortKey s)) ⟨last, none, false⟩ :=
    foldl_pickLargestResource found hlast
  rw [largestResource, hfound, Option.map_some, largest, ← hfoldl]
  rfl

/-! ### The loops -/

/-- The resources in `found` are taken in the same order. -/
def SameOrder (found : List ResourceId) (s s' : Store) : Prop :=
  SameShape s s' ∧ ∀ r ∈ found, sortKey s' r = sortKey s r

lemma SameOrder.refl (found : List ResourceId) (s : Store) : SameOrder found s s :=
  ⟨.refl s, fun _ _ => rfl⟩

lemma SameOrder.trans {found : List ResourceId} (h : SameOrder found s s')
    (h' : SameOrder found s' s'') : SameOrder found s s'' :=
  ⟨h.1.trans h'.1, fun r hr => (h'.2 r hr).trans (h.2 r hr)⟩

lemma SameShape.isFixed_eq (h : SameShape s s') (r : ResourceId) : isFixed s' r = isFixed s r :=
  h.has_eq (by decide) r

lemma SameShape.movable_eq (h : SameShape s s') (l : List ResourceId) :
    movable s' l = movable s l := by
  simp only [movable, h.isFixed_eq]

lemma mem_movable {l : List ResourceId} {r : ResourceId} :
    r ∈ movable s l ↔ r ∈ l ∧ isFixed s r = false := by
  simp [movable, List.mem_filter]

/-- The order in which the resources of a bus are taken. -/
def takeOrder (s : Store) (found : List ResourceId) : List ResourceId :=
  takeAll (sortKey s) (movable s found) none found.length

lemma SameOrder.takeOrder_eq {found : List ResourceId} (h : SameOrder found s s') :
    takeOrder s' found = takeOrder s found := by
  rw [takeOrder, h.1.movable_eq, takeOrder]
  exact takeAll_congr (sortKey s) (fun r hr => h.2 r (mem_movable.mp hr).1) (by simp)

lemma takeOrder_subset {found : List ResourceId} : takeOrder s found ⊆ movable s found :=
  fun _ hr => mem_of_mem_takeAll (sortKey s) hr

/-- Every resource that is not fixed is taken once, those with larger alignment first. -/
lemma takeOrder_spec {found : List ResourceId} (h : found.Nodup) :
    Selects (sortKey s) (movable s found) none (takeOrder s found) ∧
      (takeOrder s found).Perm (movable s found) ∧
      (takeOrder s found).Pairwise fun x y => sortKey s y ≤ sortKey s x := by
  obtain ⟨order, hperm, hsorted, hselects⟩ :=
    exists_selects (sortKey s) (show (movable s found).Nodup from h.filter _)
  have hlen : order.length ≤ found.length := by
    rw [hperm.length_eq]
    exact List.length_filter_le _ _
  rw [takeOrder, hselects.takeAll_eq (sortKey s) hlen]
  exact ⟨hselects, hperm, hsorted⟩

lemma mem_takeOrder {found : List ResourceId} (h : found.Nodup) {r : ResourceId} :
    r ∈ takeOrder s found ↔ r ∈ movable s found := (takeOrder_spec h).2.1.mem_iff

/-- The resource that is picked depends on the order only. -/
lemma largestResource_congr {found : List ResourceId} (hfound : w.resources t depth s' = some found)
    (hfixed : ∀ r, isFixed s' r = isFixed s r) (hkey : ∀ r ∈ found, sortKey s' r = sortKey s r)
    {last : Option ResourceId} (hlast : ∀ y ∈ last, y ∈ movable s found) :
    largestResource t depth s' w last = some (largest (sortKey s) last (movable s found)) := by
  have hmem : ∀ y ∈ movable s found, sortKey s' y = sortKey s y :=
    fun y hy => hkey y (mem_movable.mp hy).1
  have hlast' : ∀ y ∈ last, isFixed s' y = false :=
    fun y hy => (hfixed y).trans (mem_movable.mp (hlast y hy)).2
  have hmovable : movable s' found = movable s found := by simp only [movable, hfixed]
  rw [largestResource_eq hfound hlast', hmovable,
    largest_congr (sortKey s) hmem fun y hy => hmem y (hlast y hy)]

section Loop

variable {σ : Type} {store : σ → Store} {body : ResourceId → σ → σ} {x : σ}
  {found order : List ResourceId}

private lemma largestResource_same (hw : w.Typed) (hfound : w.resources t depth s = some found)
    (hs : SameOrder found s s') {last : Option ResourceId}
    (hlast : ∀ y ∈ last, y ∈ movable s found) :
    largestResource t depth s' w last = some (largest (sortKey s) last (movable s found)) :=
  largestResource_congr ((Window.resources_congr hs.1 hw).trans hfound) hs.1.isFixed_eq hs.2 hlast

private lemma whileLargest_eq (hw : w.Typed) (hfound : w.resources t depth s = some found)
    (hbody : ∀ y, ∀ r ∈ movable s found, SameOrder found s (store y) →
      SameOrder found s (store (body r y)))
    {last : Option ResourceId} {rounds : ℕ} (hx : SameOrder found s (store x))
    (hlast : ∀ y ∈ last, y ∈ movable s found) (hmem : ∀ r ∈ order, r ∈ movable s found)
    (hselects : Selects (sortKey s) (movable s found) last order) (hrounds : order.length < rounds) :
    whileLargest t depth w store body rounds last x =
      some (order.foldl (fun y r => body r y) x) := by
  induction order generalizing last rounds x with
  | nil =>
    obtain ⟨k, rfl⟩ := Nat.exists_eq_succ_of_ne_zero hrounds.ne'
    rw [whileLargest, largestResource_same hw hfound hx hlast, hselects]
    rfl
  | cons r order ih =>
    obtain ⟨k, rfl⟩ := Nat.exists_eq_succ_of_ne_zero (Nat.ne_zero_of_lt hrounds)
    have hr := hmem r (by simp)
    rw [whileLargest, largestResource_same hw hfound hx hlast, hselects.1]
    exact ih (hbody x r hr hx) (by simpa using hr) (fun y hy => hmem y (by simp [hy])) hselects.2
      (by simpa using hrounds)

/-- The loop takes the resources in their order. -/
lemma forLargest_eq (hw : w.Typed) (hfound : w.resources t depth (store x) = some found)
    (hnodup : found.Nodup)
    (hbody : ∀ y, ∀ r ∈ movable (store x) found, SameOrder found (store x) (store y) →
      SameOrder found (store x) (store (body r y))) :
    forLargest t depth w store body x =
      some ((takeOrder (store x) found).foldl (fun y r => body r y) x) := by
  obtain ⟨hselects, hperm, -⟩ := takeOrder_spec (s := store x) hnodup
  have hlen : (takeOrder (store x) found).length < found.length + 1 := by
    have := hperm.length_eq
    have : (movable (store x) found).length ≤ found.length := List.length_filter_le _ _
    omega
  rw [forLargest, hfound, Option.bind_some]
  exact whileLargest_eq hw hfound hbody (.refl _ _) (by simp) (fun r hr => hperm.mem_iff.mp hr)
    hselects hlen

end Loop

end ApuBios.Allocator
