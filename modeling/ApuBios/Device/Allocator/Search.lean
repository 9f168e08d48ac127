import ApuBios.Device.Allocator.Completeness
import Mathlib.Data.List.TakeWhile

/-!
# What a search comes to

`search_bus_resources` goes through the resources of every device on a bus, and through those
behind a subtractive resource in its place. Its loop over the resources of a device ends at a
subtractive resource whose link is not there.
-/

namespace ApuBios.Allocator

/-! ### The resources to come to -/

/-- The resource is one to call `search` for. -/
def Reports (s : Store) (typeMask type : BitVec 32) (res : ResourceId) : Prop :=
  (s res).matches typeMask type = true ∧ (s res).has IORESOURCE_SUBTRACTIVE = false

/-- The resource stands for what is on the bus. -/
def Opens (t : Topology) (s : Store) (typeMask type : BitVec 32) (dev : DeviceId) (res : ResourceId)
    (subbus : BusId) : Prop :=
  (s res).matches typeMask type = true ∧ (s res).has IORESOURCE_SUBTRACTIVE = true ∧
    findLink t dev (IOINDEX_SUBTRACTIVE_LINK (s res).index) = some subbus

/-- The resource is to be reported by a search from the bus. -/
inductive Reach (t : Topology) (s : Store) (typeMask type : BitVec 32) : BusId → ResourceId → Prop
  | own {b d r} : d ∈ t.children b → t.enabled d = true → r ∈ t.resourceList d →
      Reports s typeMask type r → Reach t s typeMask type b r
  | link {b d q b' r} : d ∈ t.children b → t.enabled d = true → q ∈ t.resourceList d →
      Opens t s typeMask type d q b' → Reach t s typeMask type b' r → Reach t s typeMask type b r

/-- The search calls `search` once for each resource that it is to report. -/
structure Enumerates (t : Topology) (s : Store) (typeMask type : BitVec 32) (b : BusId)
    (found : List ResourceId) : Prop where
  once : found.Nodup
  mem_iff : ∀ r, r ∈ found ↔ Reach t s typeMask type b r

/-! ### The resources that are come to -/

/-- The loop over the resources ends here. -/
def lostLink (t : Topology) (s : Store) (typeMask type : BitVec 32) (dev : DeviceId)
    (res : ResourceId) : Bool :=
  (s res).matches typeMask type && (s res).has IORESOURCE_SUBTRACTIVE &&
    (findLink t dev (IOINDEX_SUBTRACTIVE_LINK (s res).index)).isNone

/-- The resources of the device that the loop looks at. -/
def readPart (t : Topology) (s : Store) (typeMask type : BitVec 32) (dev : DeviceId)
    (l : List ResourceId) : List ResourceId :=
  l.takeWhile fun res => !lostLink t s typeMask type dev res

/-- What one round of the loop over the resources comes to. -/
def visit (t : Topology) (search : BusId → List ResourceId) (s : Store) (typeMask type : BitVec 32)
    (dev : DeviceId) (res : ResourceId) : List ResourceId :=
  if !(s res).matches typeMask type then []
  else if (s res).has IORESOURCE_SUBTRACTIVE then
    (findLink t dev (IOINDEX_SUBTRACTIVE_LINK (s res).index)).elim [] search
  else [res]

def visitDevice (t : Topology) (search : BusId → List ResourceId) (s : Store)
    (typeMask type : BitVec 32) (dev : DeviceId) : List ResourceId :=
  if !t.enabled dev then []
  else (readPart t s typeMask type dev (t.resourceList dev)).flatMap
    (visit t search s typeMask type dev)

def visits (t : Topology) (s : Store) (typeMask type : BitVec 32) : (depth : ℕ) → BusId →
    List ResourceId
  | 0, _ => []
  | depth + 1, bus =>
    (t.children bus).flatMap (visitDevice t (visits t s typeMask type depth) s typeMask type)

/-- Something is to be reported from the bus. -/
def Occupied (t : Topology) (s : Store) (typeMask type : BitVec 32) (b : BusId) : Prop :=
  ∃ r, Reach t s typeMask type b r

/-- The device loses nothing where its loop ends, and leads to no bus twice. -/
structure Unbroken (t : Topology) (s : Store) (typeMask type : BitVec 32) (d : DeviceId) : Prop where
  /-- behind a missing link, no resource is to be reported -/
  own : ∀ x ∈ t.resourceList d, x ∉ readPart t s typeMask type d (t.resourceList d) →
    ¬Reports s typeMask type x
  /-- a bus behind it has been come to before, or has nothing to report -/
  bus : ∀ x ∈ t.resourceList d, ∀ b, Opens t s typeMask type d x b → Occupied t s typeMask type b →
    ∃ y ∈ readPart t s typeMask type d (t.resourceList d), Opens t s typeMask type d y b
  once : (readPart t s typeMask type d (t.resourceList d)).Pairwise fun x y => ∀ b,
    Opens t s typeMask type d x b → Opens t s typeMask type d y b → ¬Occupied t s typeMask type b

/-- The device is on the bus, or behind subtractive resources of one that is. -/
inductive Descent (t : Topology) (s : Store) (typeMask type : BitVec 32) : BusId → DeviceId → Prop
  | here {b d} : d ∈ t.children b → t.enabled d = true → Descent t s typeMask type b d
  | link {b d q b' e} : d ∈ t.children b → t.enabled d = true → q ∈ t.resourceList d →
      Opens t s typeMask type d q b' → Descent t s typeMask type b' e → Descent t s typeMask type b e

variable {t : Topology} {s : Store} {typeMask type : BitVec 32} {rank : BusId → ℕ}
  {height depth : ℕ} {b b' : BusId} {d e : DeviceId} {r x y : ResourceId}

/-! ### The search as a list -/

section Lists

variable {search' : BusId → List ResourceId}

lemma readPart_cons (hx : lostLink t s typeMask type d x = false) (l : List ResourceId) :
    readPart t s typeMask type d (x :: l) = x :: readPart t s typeMask type d l := by
  rw [readPart, List.takeWhile_cons, hx]
  rfl

lemma readPart_subset {l : List ResourceId} (hx : x ∈ readPart t s typeMask type d l) : x ∈ l :=
  (List.takeWhile_sublist _).subset hx

lemma mem_visit : r ∈ visit t search' s typeMask type d x ↔
    (r = x ∧ Reports s typeMask type x) ∨ ∃ b, Opens t s typeMask type d x b ∧ r ∈ search' b := by
  rw [visit]
  cases hmatches : (s x).matches typeMask type with
  | false => simp [Reports, Opens, hmatches]
  | true =>
    cases hsub : (s x).has IORESOURCE_SUBTRACTIVE with
    | false => simp [Reports, Opens, hmatches, hsub]
    | true =>
      cases hlink : findLink t d (IOINDEX_SUBTRACTIVE_LINK (s x).index) with
      | none => simp [Reports, Opens, hsub, hlink]
      | some b => simp [Reports, Opens, hmatches, hsub, hlink]

lemma visit_of_opens (h : Opens t s typeMask type d x b) :
    visit t search' s typeMask type d x = search' b := by
  obtain ⟨hmatches, hsub, hlink⟩ := h
  simp [visit, hmatches, hsub, hlink]

lemma visit_nodup (h : ∀ b, Opens t s typeMask type d x b → (search' b).Nodup) :
    (visit t search' s typeMask type d x).Nodup := by
  rw [visit]
  split_ifs with hmatches hsub
  · exact List.nodup_nil
  · cases hlink : findLink t d (IOINDEX_SUBTRACTIVE_LINK (s x).index) with
    | none => exact List.nodup_nil
    | some b => exact h b ⟨by simpa using hmatches, hsub, hlink⟩
  · exact List.nodup_singleton x

lemma searchDevice_eq {search : BusId → Option (List ResourceId)}
    (h : ∀ b ∈ t.linkList d, search b = some (search' b)) (l : List ResourceId) :
    searchDevice t search s typeMask type d l =
      some ((readPart t s typeMask type d l).flatMap (visit t search' s typeMask type d)) := by
  induction l with
  | nil => rfl
  | cons x l ih =>
    rw [searchDevice]
    cases hmatches : (s x).matches typeMask type with
    | false =>
      rw [readPart_cons (by simp [lostLink, hmatches]), List.flatMap_cons, visit]
      simp [hmatches, ih]
    | true =>
      cases hsub : (s x).has IORESOURCE_SUBTRACTIVE with
      | false =>
        rw [readPart_cons (by simp [lostLink, hsub]), List.flatMap_cons, visit]
        simp [hmatches, hsub, ih]
      | true =>
        cases hlink : findLink t d (IOINDEX_SUBTRACTIVE_LINK (s x).index) with
        | none =>
          rw [readPart, List.takeWhile_cons]
          simp [lostLink, hmatches, hsub, hlink]
        | some b =>
          have hopens : Opens t s typeMask type d x b := ⟨hmatches, hsub, hlink⟩
          rw [readPart_cons (by simp [lostLink, hlink]), List.flatMap_cons, visit_of_opens hopens]
          simp [ih, h b (mem_linkList_of_findLink hlink)]

/-- The parts that are there make up the whole. -/
lemma concat_map_some {α : Type} (f : α → List ResourceId) (l : List α) :
    concat (l.map fun a => some (f a)) = some (l.flatMap f) := by
  induction l with
  | nil => rfl
  | cons a l ih =>
    rw [List.map_cons, concat, ih]
    rfl

end Lists

lemma searchBusResources_eq (h : DeviceTree t rank height) (hb : rank b ≤ height)
    (hdepth : height < rank b + depth) :
    searchBusResources t s typeMask type depth b = some (visits t s typeMask type depth b) := by
  induction depth generalizing b with
  | zero => omega
  | succ depth ih =>
    have hdevice : ∀ d ∈ t.children b, (if !t.enabled d then some [] else searchDevice t
        (searchBusResources t s typeMask type depth) s typeMask type d (t.resourceList d)) =
        some (visitDevice t (visits t s typeMask type depth) s typeMask type d) := by
      intro d hd
      have hsearch : ∀ b' ∈ t.linkList d, searchBusResources t s typeMask type depth b' =
          some (visits t s typeMask type depth b') := by
        intro b' hb'
        have hrank := h.rank_link hd hb'
        have hlt := h.rank_lt hd
        exact ih (by omega) (by omega)
      rw [visitDevice, searchDevice_eq hsearch]
      split_ifs <;> rfl
    rw [searchBusResources, List.map_congr_left hdevice, concat_map_some]
    rfl

lemma mem_visitDevice {search : BusId → List ResourceId} :
    r ∈ visitDevice t search s typeMask type d ↔ t.enabled d = true ∧
      ∃ x ∈ readPart t s typeMask type d (t.resourceList d), (r = x ∧ Reports s typeMask type x) ∨
        ∃ b', Opens t s typeMask type d x b' ∧ r ∈ search b' := by
  rw [visitDevice]
  cases henabled : t.enabled d with
  | false => simp
  | true => simp [List.mem_flatMap, mem_visit]

lemma mem_visits : r ∈ visits t s typeMask type (depth + 1) b ↔ ∃ d ∈ t.children b,
    t.enabled d = true ∧ ∃ x ∈ readPart t s typeMask type d (t.resourceList d),
      (r = x ∧ Reports s typeMask type x) ∨
        ∃ b', Opens t s typeMask type d x b' ∧ r ∈ visits t s typeMask type depth b' := by
  simp only [visits, List.mem_flatMap, mem_visitDevice]

/-! ### Completeness -/

lemma Opens.mem_linkList (h : Opens t s typeMask type d x b) : b ∈ t.linkList d :=
  mem_linkList_of_findLink h.2.2

lemma Reach.belowBus (h : Reach t s typeMask type b r) : BelowBus t b r := by
  induction h with
  | own hd _ hr _ => exact .here hd hr
  | link hd _ _ hopens _ ih => exact .deeper hd hopens.mem_linkList ih

/-- The search only comes to resources that it is to report. -/
lemma reach_of_mem_visits (hr : r ∈ visits t s typeMask type depth b) :
    Reach t s typeMask type b r := by
  induction depth generalizing b with
  | zero => cases hr
  | succ depth ih =>
    obtain ⟨d, hd, henabled, x, hx, ⟨rfl, hreports⟩ | ⟨b', hopens, hr⟩⟩ := mem_visits.mp hr
    · exact .own hd henabled (readPart_subset hx) hreports
    · exact .link hd henabled (readPart_subset hx) hopens (ih hr)

lemma Descent.reach_of_reports (h : Descent t s typeMask type b e) (hx : x ∈ t.resourceList e)
    (hreports : Reports s typeMask type x) : Reach t s typeMask type b x := by
  induction h with
  | here hd henabled => exact .own hd henabled hx hreports
  | link hd henabled hq hopens _ ih => exact .link hd henabled hq hopens (ih hx)

lemma Descent.reach_of_opens (h : Descent t s typeMask type b e) (hx : x ∈ t.resourceList e)
    (hopens : Opens t s typeMask type e x b') (hr : Reach t s typeMask type b' r) :
    Reach t s typeMask type b r := by
  induction h with
  | here hd henabled => exact .link hd henabled hx hopens hr
  | link hd henabled hq hq' _ ih => exact .link hd henabled hq hq' (ih hx hopens)

/-- Where there is nothing to report, nothing is lost. -/
lemma Descent.unbroken_of_not_occupied (h : Descent t s typeMask type b e)
    (hempty : ¬Occupied t s typeMask type b) : Unbroken t s typeMask type e := by
  have hbus : ∀ x ∈ t.resourceList e, ∀ b', Opens t s typeMask type e x b' →
      ¬Occupied t s typeMask type b' := by
    rintro x hx b' hopens ⟨r, hr⟩
    exact hempty ⟨r, h.reach_of_opens hx hopens hr⟩
  constructor
  · intro x hx _ hreports
    exact hempty ⟨x, h.reach_of_reports hx hreports⟩
  · intro x hx b' hopens hoccupied
    exact absurd hoccupied (hbus x hx b' hopens)
  · apply List.Pairwise.imp_of_mem _ (List.pairwise_of_forall fun _ _ => trivial)
    intro x y hx _ _ b' hopens _
    exact hbus x (readPart_subset hx) b' hopens

/-- A device whose subtractive resources all have links, each another one, loses nothing. -/
lemma unbroken_of_links (hlinks : ∀ x ∈ t.resourceList d, lostLink t s typeMask type d x = false)
    (hone : (t.resourceList d).Pairwise fun x y => ∀ b, Opens t s typeMask type d x b →
      ¬Opens t s typeMask type d y b) : Unbroken t s typeMask type d := by
  have hread : readPart t s typeMask type d (t.resourceList d) = t.resourceList d := by
    rw [readPart, List.takeWhile_eq_self_iff]
    intro x hx
    rw [hlinks x hx, Bool.not_false]
  constructor <;> rw [hread]
  · intro x hx hlost
    exact absurd hx hlost
  · intro x hx b hopens _
    exact ⟨x, hx, hopens⟩
  · exact hone.imp fun hxy b hx hy => absurd hy (hxy b hx)

section Tree

variable (h : DeviceTree t rank height)

include h in
/-- Only the link of one device leads to the resource. -/
lemma opens_unique (hd : d ∈ t.children b) (he : e ∈ t.children b)
    (hx : Opens t s typeMask type d x b') (hr : BelowBus t b' r) {b'' : BusId}
    (hy : Opens t s typeMask type e y b'') (hr' : BelowBus t b'' r) : b' = b'' ∧ d = e := by
  have hrank : rank b' = rank b'' := by
    rw [h.rank_link hd hx.mem_linkList, h.rank_link he hy.mem_linkList]
  obtain rfl := h.bus_unique hr hr' hrank
  exact ⟨rfl, h.device hx.mem_linkList hy.mem_linkList⟩

/-- What a device leads to is below it. -/
lemma belowDevice_of_mem_visitDevice
    (hr : r ∈ visitDevice t (visits t s typeMask type depth) s typeMask type d) :
    BelowDevice t d r := by
  obtain ⟨-, x, hx, ⟨rfl, -⟩ | ⟨b', hopens, hr⟩⟩ := mem_visitDevice.mp hr
  · exact Or.inl (readPart_subset hx)
  · exact Or.inr ⟨b', hopens.mem_linkList, (reach_of_mem_visits hr).belowBus⟩

include h in
lemma visitDevice_nodup (hd : d ∈ t.children b) (hgood : Unbroken t s typeMask type d)
    (hsub : ∀ x ∈ t.resourceList d, ∀ b', Opens t s typeMask type d x b' →
      (visits t s typeMask type depth b').Nodup) :
    (visitDevice t (visits t s typeMask type depth) s typeMask type d).Nodup := by
  rw [visitDevice]
  cases t.enabled d with
  | false => exact List.nodup_nil
  | true =>
    rw [Bool.not_true, if_neg Bool.false_ne_true, List.nodup_flatMap]
    constructor
    · intro x hx
      exact visit_nodup (hsub x (readPart_subset hx))
    · have hne : (readPart t s typeMask type d (t.resourceList d)).Nodup :=
        (h.resources_nodup d).sublist (List.takeWhile_sublist _)
      refine (hgood.once.and hne).imp_of_mem ?_
      rintro x y hx hy ⟨honce, hne⟩ r hrx hry
      rcases mem_visit.mp hrx with ⟨rfl, -⟩ | ⟨b', hxb, hr⟩ <;>
        rcases mem_visit.mp hry with ⟨rfl, -⟩ | ⟨b'', hyb, hr'⟩
      · exact hne rfl
      · exact h.not_below_link hd (readPart_subset hx) hd hyb.mem_linkList
          (reach_of_mem_visits hr').belowBus
      · exact h.not_below_link hd (readPart_subset hy) hd hxb.mem_linkList
          (reach_of_mem_visits hr).belowBus
      · obtain ⟨rfl, -⟩ := opens_unique h hd hd hxb (reach_of_mem_visits hr).belowBus hyb
          (reach_of_mem_visits hr').belowBus
        exact honce b' hxb hyb ⟨r, reach_of_mem_visits hr⟩

include h in
lemma visits_nodup
    (hparts : ∀ d ∈ t.children b,
      (visitDevice t (visits t s typeMask type depth) s typeMask type d).Nodup) :
    (visits t s typeMask type (depth + 1) b).Nodup := by
  rw [visits, List.nodup_flatMap]
  refine ⟨hparts, (h.children_nodup b).imp_of_mem ?_⟩
  intro d e hd he hne r hrd hre
  exact hne (h.device_unique hd he (belowDevice_of_mem_visitDevice hrd)
    (belowDevice_of_mem_visitDevice hre))

include h in
/-- The step from the buses below to a bus: every device that is come to loses nothing. -/
lemma enumerates_succ (hgood : ∀ d ∈ t.children b, t.enabled d = true →
      Unbroken t s typeMask type d)
    (hsub : ∀ d ∈ t.children b, t.enabled d = true → ∀ x ∈ t.resourceList d, ∀ b',
      Opens t s typeMask type d x b' →
        Enumerates t s typeMask type b' (visits t s typeMask type depth b')) :
    Enumerates t s typeMask type b (visits t s typeMask type (depth + 1) b) := by
  constructor
  · apply visits_nodup h
    intro d hd
    cases henabled : t.enabled d with
    | false =>
      rw [visitDevice, henabled]
      exact List.nodup_nil
    | true =>
      exact visitDevice_nodup h hd (hgood d hd henabled) fun x hx b' hopens =>
        (hsub d hd henabled x hx b' hopens).once
  · intro r
    refine ⟨reach_of_mem_visits, fun hr => mem_visits.mpr ?_⟩
    cases hr with
    | @own _ d _ hd henabled hr hreports =>
      refine ⟨d, hd, henabled, r, ?_, Or.inl ⟨rfl, hreports⟩⟩
      by_contra hlost
      exact (hgood d hd henabled).own r hr hlost hreports
    | @link _ d q b' _ hd henabled hq hopens hr =>
      obtain ⟨y, hy, hopens'⟩ := (hgood d hd henabled).bus q hq b' hopens ⟨r, hr⟩
      exact ⟨d, hd, henabled, y, hy, Or.inr ⟨b', hopens',
        ((hsub d hd henabled q hq b' hopens).mem_iff r).mpr hr⟩⟩

section Enumerates

variable (hall : Enumerates t s typeMask type b (visits t s typeMask type (depth + 1) b))
include hall

include h in
/-- What is to be reported from a bus behind a device is reported through the device. -/
lemma Enumerates.exists_opens (hd : d ∈ t.children b) (henabled : t.enabled d = true)
    (hx : x ∈ t.resourceList d) (hopens : Opens t s typeMask type d x b')
    (hr : Reach t s typeMask type b' r) : r ∈ visits t s typeMask type depth b' ∧
      ∃ y ∈ readPart t s typeMask type d (t.resourceList d), Opens t s typeMask type d y b' := by
  obtain ⟨e, he, -, y, hy, ⟨rfl, -⟩ | ⟨b'', hopens', hr'⟩⟩ :=
    mem_visits.mp ((hall.mem_iff r).mpr (.link hd henabled hx hopens hr))
  · exact absurd hr.belowBus (h.not_below_link hd (readPart_subset hy) he hopens.mem_linkList)
  · obtain ⟨rfl, rfl⟩ := opens_unique h hd he hopens hr.belowBus hopens'
      (reach_of_mem_visits hr').belowBus
    exact ⟨hr', y, hy, hopens'⟩

lemma Enumerates.visitDevice_nodup (hd : d ∈ t.children b) :
    (visitDevice t (visits t s typeMask type depth) s typeMask type d).Nodup := by
  have honce := hall.once
  rw [visits, List.nodup_flatMap] at honce
  exact honce.1 d hd

lemma Enumerates.readPart_nodup (hd : d ∈ t.children b) (henabled : t.enabled d = true) :
    (∀ x ∈ readPart t s typeMask type d (t.resourceList d),
      (visit t (visits t s typeMask type depth) s typeMask type d x).Nodup) ∧
    (readPart t s typeMask type d (t.resourceList d)).Pairwise fun x y =>
      (visit t (visits t s typeMask type depth) s typeMask type d x).Disjoint
        (visit t (visits t s typeMask type depth) s typeMask type d y) := by
  have honce := Enumerates.visitDevice_nodup hall hd
  rw [visitDevice, henabled, Bool.not_true, if_neg Bool.false_ne_true, List.nodup_flatMap] at honce
  exact honce

include h in
lemma Enumerates.unbroken (hd : d ∈ t.children b) (henabled : t.enabled d = true) :
    Unbroken t s typeMask type d := by
  constructor
  · intro x hx hlost hreports
    obtain ⟨e, he, -, y, hy, ⟨rfl, -⟩ | ⟨b'', hopens', hr'⟩⟩ :=
      mem_visits.mp ((hall.mem_iff x).mpr (.own hd henabled hx hreports))
    · obtain rfl := h.owner hx (readPart_subset hy)
      exact hlost hy
    · exact h.not_below_link he hx hd hopens'.mem_linkList (reach_of_mem_visits hr').belowBus
  · rintro x hx b' hopens ⟨r, hr⟩
    exact (Enumerates.exists_opens h hall hd henabled hx hopens hr).2
  · refine (Enumerates.readPart_nodup hall hd henabled).2.imp_of_mem ?_
    rintro x y hx hy hdisj b' hxb hyb ⟨r, hr⟩
    have hmem := (Enumerates.exists_opens h hall hd henabled (readPart_subset hx) hxb hr).1
    exact hdisj (mem_visit.mpr (Or.inr ⟨b', hxb, hmem⟩)) (mem_visit.mpr (Or.inr ⟨b', hyb, hmem⟩))

include h in
/-- The search from a bus behind a device comes to everything as well. -/
lemma Enumerates.sub (hd : d ∈ t.children b) (henabled : t.enabled d = true)
    (hx : x ∈ t.resourceList d) (hopens : Opens t s typeMask type d x b')
    (hoccupied : Occupied t s typeMask type b') :
    Enumerates t s typeMask type b' (visits t s typeMask type depth b') := by
  obtain ⟨r, hr⟩ := hoccupied
  obtain ⟨-, y, hy, hopens'⟩ := Enumerates.exists_opens h hall hd henabled hx hopens hr
  constructor
  · have honce := (Enumerates.readPart_nodup hall hd henabled).1 y hy
    rwa [visit_of_opens hopens'] at honce
  · intro q
    exact ⟨reach_of_mem_visits, fun hq =>
      (Enumerates.exists_opens h hall hd henabled hx hopens hq).1⟩

end Enumerates

end Tree

lemma visits_enumerates_iff (h : DeviceTree t rank height) (hb : rank b ≤ height)
    (hdepth : height < rank b + depth) :
    Enumerates t s typeMask type b (visits t s typeMask type depth b) ↔
      ∀ d, Descent t s typeMask type b d → Unbroken t s typeMask type d := by
  induction depth generalizing b with
  | zero => omega
  | succ depth ih =>
    have hlink : ∀ d ∈ t.children b, ∀ x b', Opens t s typeMask type d x b' →
        (Enumerates t s typeMask type b' (visits t s typeMask type depth b') ↔
          ∀ d, Descent t s typeMask type b' d → Unbroken t s typeMask type d) := by
      intro d hd x b' hopens
      have hrank := h.rank_link hd hopens.mem_linkList
      have hlt := h.rank_lt hd
      exact ih (by omega) (by omega)
    constructor
    · intro hall e he
      cases he with
      | here hd henabled => exact Enumerates.unbroken h hall hd henabled
      | @link _ d q b' _ hd henabled hq hopens he =>
        by_cases hoccupied : Occupied t s typeMask type b'
        · exact (hlink d hd q b' hopens).mp
            (Enumerates.sub h hall hd henabled hq hopens hoccupied) e he
        · exact he.unbroken_of_not_occupied hoccupied
    · intro hgood
      refine enumerates_succ h (fun d hd henabled => hgood d (.here hd henabled)) ?_
      intro d hd henabled x hx b' hopens
      exact (hlink d hd x b' hopens).mpr fun e he => hgood e (.link hd henabled hx hopens he)

/-- A search calls `search` once for each resource that it is to report if and only if no device it
descends to loses a resource behind a missing link or leads to a bus twice. -/
theorem searchBusResources_enumerates_iff (h : DeviceTree t rank height) (hb : rank b ≤ height)
    (hdepth : height < rank b + depth) :
    ∃ found, searchBusResources t s typeMask type depth b = some found ∧
      (Enumerates t s typeMask type b found ↔
        ∀ d, Descent t s typeMask type b d → Unbroken t s typeMask type d) :=
  ⟨_, searchBusResources_eq h hb hdepth, visits_enumerates_iff h hb hdepth⟩

/-- The memory for the flash, for the SPI registers and the IOAPIC, as `lpc_read_resources` adds it
to the first device of the chain; the device on its link has memory too. -/
def lpcStore (first : ℕ) : Store
  | 0 => ⟨0xff800000, 0x800000, 0, MEM_TYPE ||| IORESOURCE_SUBTRACTIVE, first, 0, 0⟩
  | 1 => ⟨0xfec00000, 0x1000, 0, MEM_TYPE ||| IORESOURCE_FIXED, 3, 0, 0⟩
  | 2 => ⟨0, 0x1000, 0xffffffff, MEM_TYPE, 0x10, 12, 12⟩
  | _ => ⟨0, 0, 0, 0, 0, 0, 0⟩

theorem searchBusResources_enumerates_iff_flash :
    ∃ found, searchBusResources chainTopology (lpcStore 0x10000100) MEM_MASK MEM_TYPE 4 0 =
        some found ∧
      Enumerates chainTopology (lpcStore 0x10000100) MEM_MASK MEM_TYPE 0 found := by
  obtain ⟨found, heq, hiff⟩ := @searchBusResources_enumerates_iff chainTopology
    (lpcStore 0x10000100) MEM_MASK MEM_TYPE id 3 4 0 chainTopology_tree (by decide) (by decide)
  have hsub : ∀ x, (lpcStore 0x10000100 x).has IORESOURCE_SUBTRACTIVE = true → x = 0 := by
    rintro (_ | _ | _ | x) hx
    · rfl
    · exact absurd hx (by decide)
    · exact absurd hx (by decide)
    · exact absurd hx (by simp [lpcStore, Resource.has])
  refine ⟨found, heq, hiff.mpr fun d _ => unbroken_of_links ?_ ?_⟩
  · intro x hx
    by_cases h0 : x = 0
    · subst h0
      obtain rfl : d = 0 := by
        simp only [chainTopology] at hx
        split_ifs at hx <;> simp_all
      decide
    · rw [lostLink, Bool.eq_false_iff.mpr fun h => h0 (hsub x h), Bool.and_false, Bool.false_and]
  · refine (chainTopology_tree.resources_nodup d).imp ?_
    intro x y hne b hx hy
    exact hne ((hsub x hx.2.1).trans (hsub y hy.2.1).symm)

/-- The SPI registers name a link that the device does not have: the IOAPIC behind them in the list
is not come to. -/
theorem not_enumerates_lpc :
    ∃ found, searchBusResources chainTopology (lpcStore 2) MEM_MASK MEM_TYPE 4 0 = some found ∧
      ¬Enumerates chainTopology (lpcStore 2) MEM_MASK MEM_TYPE 0 found := by
  refine ⟨[], by decide, fun h => ?_⟩
  have hreach : Reach chainTopology (lpcStore 2) MEM_MASK MEM_TYPE 0 1 :=
    @Reach.own _ _ _ _ 0 0 1 (by decide) rfl (by decide) ⟨by decide, by decide⟩
  have hfound := (h.mem_iff 1).mpr hreach
  exact List.not_mem_nil hfound

end ApuBios.Allocator
