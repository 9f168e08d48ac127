import ApuBios.Device.Allocator.Configure
import ApuBios.Device.Allocator.Tree

/-!
# Device trees

Every device is on one bus, and every bus and resource belongs to one device. On such a tree the
windows of PCI bridges lead to every resource at most once (`isTree_of_attached`).
-/

namespace ApuBios.Allocator

/-- What kind of address space a resource is in. -/
def KIND : BitVec 32 := IORESOURCE_IO ||| IORESOURCE_MEM ||| IORESOURCE_PREFETCH

def Resource.kind (r : Resource) : BitVec 32 := r.flags &&& KIND

/-- `rank` counts the buses from the root, up to `height`. -/
structure DeviceTree (t : Topology) (rank : BusId → ℕ) (height : ℕ) : Prop where
  bus : ∀ {b b' d}, d ∈ t.children b → d ∈ t.children b' → b = b'
  device : ∀ {d d' b}, b ∈ t.linkList d → b ∈ t.linkList d' → d = d'
  owner : ∀ {d d' r}, r ∈ t.resourceList d → r ∈ t.resourceList d' → d = d'
  rank_link : ∀ {b d b'}, d ∈ t.children b → b' ∈ t.linkList d → rank b' = rank b + 1
  rank_lt : ∀ {b d}, d ∈ t.children b → rank b < height
  children_nodup : ∀ b, (t.children b).Nodup
  resources_nodup : ∀ d, (t.resourceList d).Nodup

/-- The resources as the devices of a PCI domain set them up. -/
structure PciResources (t : Topology) (s : Store) : Prop where
  /-- I/O or memory, and only memory is prefetchable -/
  kind : ∀ r, (s r).kind = IO_TYPE ∨ (s r).kind = MEM_TYPE ∨ (s r).kind = PREF_TYPE ∨
    (s r).kind &&& ( IORESOURCE_IO ||| IORESOURCE_MEM) = 0
  /-- the link of a window is there -/
  link : ∀ d, t.linkList d ≠ [] → ∀ r ∈ t.resourceList d, (s r).has IORESOURCE_BRIDGE = true →
    (findLink t d (IOINDEX_LINK (s r).index)).isSome
  /-- a bridge has one window of a kind for a link -/
  window : ∀ d, ∀ r ∈ t.resourceList d, ∀ q ∈ t.resourceList d,
    (s r).has IORESOURCE_BRIDGE = true → (s q).has IORESOURCE_BRIDGE = true →
    findLink t d (IOINDEX_LINK (s r).index) = findLink t d (IOINDEX_LINK (s q).index) →
    (s r).kind = (s q).kind → r = q
  /-- a bridge with windows does not decode subtractively -/
  positive : ∀ d, ∀ r ∈ t.resourceList d, ∀ q ∈ t.resourceList d,
    (s r).has IORESOURCE_BRIDGE = true → (s q).has IORESOURCE_SUBTRACTIVE = false
  /-- one subtractive resource of a kind leads to a bus -/
  subtractive : ∀ d, ∀ r ∈ t.resourceList d, ∀ q ∈ t.resourceList d,
    (s r).has IORESOURCE_SUBTRACTIVE = true → (s q).has IORESOURCE_SUBTRACTIVE = true →
    ∀ b ∈ findLink t d (IOINDEX_SUBTRACTIVE_LINK (s r).index),
      findLink t d (IOINDEX_SUBTRACTIVE_LINK (s q).index) = some b →
      (s r).has IORESOURCE_IO = (s q).has IORESOURCE_IO → r = q

/-- The resource belongs to a device on the bus or below. -/
inductive BelowBus (t : Topology) : BusId → ResourceId → Prop
  | here {b d r} : d ∈ t.children b → r ∈ t.resourceList d → BelowBus t b r
  | deeper {b d b' r} : d ∈ t.children b → b' ∈ t.linkList d → BelowBus t b' r → BelowBus t b r

/-- The resource belongs to the device or to one behind it. -/
def BelowDevice (t : Topology) (d : DeviceId) (r : ResourceId) : Prop :=
  r ∈ t.resourceList d ∨ ∃ b ∈ t.linkList d, BelowBus t b r

variable {t : Topology} {s : Store} {rank : BusId → ℕ} {height : ℕ} {b b' : BusId} {d d' : DeviceId}
  {r q : ResourceId} {w c : Window} {depth : ℕ} {found : List ResourceId}

namespace DeviceTree

variable (h : DeviceTree t rank height)
include h

/-- The bus of a device that has a resource is no higher than any bus the resource is below. -/
lemma rank_le (hr : BelowBus t b r) (hd : d ∈ t.children b') (hown : r ∈ t.resourceList d) :
    rank b ≤ rank b' := by
  induction hr with
  | here hdb hrd =>
    obtain rfl := h.owner hrd hown
    rw [h.bus hdb hd]
  | deeper hdb hlink _ ih =>
    have := h.rank_link hdb hlink
    have := ih hown
    omega

/-- A resource is below one bus of a rank. -/
lemma bus_unique (hr : BelowBus t b r) (hr' : BelowBus t b' r) (hrank : rank b = rank b') :
    b = b' := by
  induction hr generalizing b' with
  | here hdb hrd =>
    cases hr' with
    | here hdb' hrd' =>
      obtain rfl := h.owner hrd hrd'
      exact h.bus hdb hdb'
    | deeper hdb' hlink hbelow =>
      have := h.rank_le hbelow hdb hrd
      have := h.rank_link hdb' hlink
      omega
  | deeper hdb hlink hbelow ih =>
    cases hr' with
    | here hdb' hrd' =>
      have := h.rank_le hbelow hdb' hrd'
      have := h.rank_link hdb hlink
      omega
    | deeper hdb' hlink' hbelow' =>
      have hlinks := ih hbelow' (by rw [h.rank_link hdb hlink, h.rank_link hdb' hlink', hrank])
      subst hlinks
      obtain rfl := h.device hlink hlink'
      exact h.bus hdb hdb'

/-- A resource of a device on a bus is not below one of its links. -/
lemma not_below_link (hd : d ∈ t.children b) (hown : r ∈ t.resourceList d') (hd' : d' ∈ t.children b)
    (hb' : b' ∈ t.linkList d) : ¬BelowBus t b' r := fun hr => by
  have := h.rank_link hd hb'
  have := h.rank_le hr hd' hown
  omega

/-- A resource is below one device of a bus. -/
lemma device_unique (hd : d ∈ t.children b) (hd' : d' ∈ t.children b) (hr : BelowDevice t d r)
    (hr' : BelowDevice t d' r) : d = d' := by
  rcases hr with hown | ⟨l, hl, hr⟩ <;> rcases hr' with hown' | ⟨l', hl', hr'⟩
  · exact h.owner hown hown'
  · exact absurd hr' (h.not_below_link hd' hown hd hl')
  · exact absurd hr (h.not_below_link hd hown' hd' hl)
  · obtain rfl := h.bus_unique hr hr' (by rw [h.rank_link hd hl, h.rank_link hd' hl'])
    exact h.device hl hl'

end DeviceTree

/-! ### Kinds -/

/-- The type mask of a window selects one address space, and its type is in it. -/
structure Window.Plain (w : Window) : Prop where
  typeMask : w.typeMask = IO_MASK ∨ w.typeMask = IO_MASK ||| IORESOURCE_PREFETCH ∨
    w.typeMask = MEM_MASK ∨ w.typeMask = MEM_MASK ||| IORESOURCE_PREFETCH
  type : w.type &&& ( IORESOURCE_IO ||| IORESOURCE_MEM) =
    w.typeMask &&& ( IORESOURCE_IO ||| IORESOURCE_MEM)

lemma Resource.kind_and (r : Resource) {mask : BitVec 32} (hmask : KIND &&& mask = mask) :
    r.flags &&& mask = r.kind &&& mask := by
  rw [Resource.kind, BitVec.and_assoc, hmask]

namespace Window.Plain

variable (hw : w.Plain)
include hw

lemma typed : w.Typed := by
  rw [Window.Typed]
  rcases hw.typeMask with h | h | h | h <;> rw [h] <;> decide

lemma mask_le : KIND &&& w.typeMask = w.typeMask := by
  rcases hw.typeMask with h | h | h | h <;> rw [h] <;> decide

lemma matches_iff (r : Resource) :
    r.matches w.typeMask w.type = true ↔ r.kind &&& w.typeMask = w.type := by
  rw [Resource.matches, beq_iff_eq, r.kind_and hw.mask_le]

/-- The resources of a window are of a kind. -/
lemma kind_mem (hs : PciResources t s) (hr : (s r).matches w.typeMask w.type = true) :
    (s r).kind = IO_TYPE ∨ (s r).kind = MEM_TYPE ∨ (s r).kind = PREF_TYPE := by
  have htype := hw.type
  rw [← (hw.matches_iff _).mp hr] at htype
  have hmask := hw.typeMask
  have hkind := hs.kind r
  generalize (s r).kind = kind, w.typeMask = mask at *
  rcases hkind with h | h | h | h
  · exact Or.inl h
  · exact Or.inr (Or.inl h)
  · exact Or.inr (Or.inr h)
  · rw [BitVec.and_assoc, BitVec.and_comm mask, ← BitVec.and_assoc, h] at htype
    exfalso
    rcases hmask with rfl | rfl | rfl | rfl <;> revert htype <;> decide

/-- The resources of a window are all in its address space. -/
lemma has_io (hs : PciResources t s) (hr : (s r).matches w.typeMask w.type = true) :
    (s r).has IORESOURCE_IO = (w.typeMask &&& IORESOURCE_IO != 0) := by
  have htype := hw.type
  rw [← (hw.matches_iff _).mp hr] at htype
  rw [Resource.has, (s r).kind_and (show KIND &&& IORESOURCE_IO = IORESOURCE_IO by decide)]
  have hmask := hw.typeMask
  have hkind := hw.kind_mem hs hr
  generalize (s r).kind = kind, w.typeMask = mask at *
  rcases hkind with rfl | rfl | rfl <;> rcases hmask with rfl | rfl | rfl | rfl <;>
    revert htype <;> decide

/-- Two resources of a window are of one kind if they are prefetchable alike. -/
lemma kind_eq (hs : PciResources t s) (hr : (s r).matches w.typeMask w.type = true)
    (hq : (s q).matches w.typeMask w.type = true)
    (hpref : w.type ||| ((s r).flags &&& IORESOURCE_PREFETCH) =
      w.type ||| ((s q).flags &&& IORESOURCE_PREFETCH)) : (s r).kind = (s q).kind := by
  have hp : KIND &&& IORESOURCE_PREFETCH = IORESOURCE_PREFETCH := by decide
  rw [(s r).kind_and hp, (s q).kind_and hp] at hpref
  have hr' := (hw.matches_iff _).mp hr
  have hq' := (hw.matches_iff _).mp hq
  have hmask := hw.typeMask
  have hkind := hw.kind_mem hs hr
  have hkind' := hw.kind_mem hs hq
  generalize (s r).kind = kind, (s q).kind = kind', w.typeMask = mask, w.type = type at *
  subst hr'
  rcases hkind with rfl | rfl | rfl <;> rcases hkind' with rfl | rfl | rfl <;>
    rcases hmask with rfl | rfl | rfl | rfl <;> first | rfl | (revert hpref hq'; decide)

end Window.Plain

/-! ### Searching -/

lemma mem_linkList_of_findLink {num : ℕ} (hb : findLink t d num = some b) : b ∈ t.linkList d :=
  List.mem_of_find?_eq_some hb

section Search

variable {typeMask type : BitVec 32} {search : BusId → Option (List ResourceId)}
  {l : List ResourceId} {xs : List (Option (List ResourceId))}

lemma mem_concat (h : concat xs = some found) (hr : r ∈ found) : ∃ part, some part ∈ xs ∧ r ∈ part := by
  induction xs generalizing found with
  | nil =>
    obtain rfl := Option.some.inj h
    simp at hr
  | cons x xs ih =>
    obtain ⟨part, rfl, h⟩ := Option.bind_eq_some_iff.mp h
    obtain ⟨rest, hrest, rfl⟩ := Option.map_eq_some_iff.mp h
    rcases List.mem_append.mp hr with hr | hr
    · exact ⟨part, by simp, hr⟩
    · obtain ⟨part', hpart', hr'⟩ := ih hrest hr
      exact ⟨part', by simp [hpart'], hr'⟩

/-- A resource is found on the device itself, or behind a subtractive resource. -/
lemma mem_searchDevice (h : searchDevice t search s typeMask type d l = some found) (hr : r ∈ found) :
    (r ∈ l ∧ (s r).matches typeMask type = true) ∨
      ∃ q ∈ l, (s q).matches typeMask type = true ∧ (s q).has IORESOURCE_SUBTRACTIVE = true ∧
        ∃ b ∈ findLink t d (IOINDEX_SUBTRACTIVE_LINK (s q).index), ∃ sub ∈ search b, r ∈ sub := by
  induction l generalizing found with
  | nil =>
    obtain rfl := Option.some.inj h
    simp at hr
  | cons x l ih =>
    have htail : ∀ {rest}, searchDevice t search s typeMask type d l = some rest → r ∈ rest →
        (r ∈ x :: l ∧ (s r).matches typeMask type = true) ∨
        ∃ q ∈ x :: l, (s q).matches typeMask type = true ∧
          (s q).has IORESOURCE_SUBTRACTIVE = true ∧
          ∃ b ∈ findLink t d (IOINDEX_SUBTRACTIVE_LINK (s q).index), ∃ sub ∈ search b, r ∈ sub := by
      intro rest hrest hr
      rcases ih hrest hr with ⟨hmem, hmatches⟩ | ⟨q, hq, hrest⟩
      · exact Or.inl ⟨List.mem_cons_of_mem _ hmem, hmatches⟩
      · exact Or.inr ⟨q, List.mem_cons_of_mem _ hq, hrest⟩
    rw [searchDevice] at h
    split_ifs at h with hmatches hsub
    · exact htail h hr
    · cases hlink : findLink t d (IOINDEX_SUBTRACTIVE_LINK (s x).index) with
      | none =>
        rw [hlink] at h
        obtain rfl := Option.some.inj h
        simp at hr
      | some b =>
        rw [hlink] at h
        obtain ⟨sub, hfound, h⟩ := Option.bind_eq_some_iff.mp h
        obtain ⟨rest, hrest, rfl⟩ := Option.map_eq_some_iff.mp h
        rcases List.mem_append.mp hr with hr | hr
        · exact Or.inr ⟨x, by simp, by simpa using hmatches, hsub, b, hlink, sub, hfound, hr⟩
        · exact htail hrest hr
    · obtain ⟨rest, hrest, rfl⟩ := Option.map_eq_some_iff.mp h
      rcases List.mem_cons.mp hr with rfl | hr
      · exact Or.inl ⟨by simp, by simpa using hmatches⟩
      · exact htail hrest hr

/-- Where a resource that is found on a bus is. -/
lemma mem_searchBusResources (h : searchBusResources t s typeMask type (depth + 1) b = some found)
    (hr : r ∈ found) : ∃ d ∈ t.children b, t.enabled d = true ∧
      ((r ∈ t.resourceList d ∧ (s r).matches typeMask type = true) ∨
      ∃ q ∈ t.resourceList d, (s q).matches typeMask type = true ∧
        (s q).has IORESOURCE_SUBTRACTIVE = true ∧
        ∃ b' ∈ findLink t d (IOINDEX_SUBTRACTIVE_LINK (s q).index),
          ∃ sub ∈ searchBusResources t s typeMask type depth b', r ∈ sub) := by
  obtain ⟨part, hpart, hr⟩ := mem_concat h hr
  obtain ⟨d, hd, hpart⟩ := List.mem_map.mp hpart
  split_ifs at hpart with henabled
  · obtain rfl := Option.some.inj hpart
    simp at hr
  · exact ⟨d, hd, by simpa using henabled, mem_searchDevice hpart hr⟩

lemma belowBus_of_found (h : searchBusResources t s typeMask type depth b = some found)
    (hr : r ∈ found) : BelowBus t b r ∧ (s r).matches typeMask type = true := by
  induction depth generalizing b found with
  | zero => simp [searchBusResources] at h
  | succ depth ih =>
    obtain ⟨d, hd, -, ⟨hrd, hmatches⟩ | ⟨q, -, -, -, b', hb', sub, hsub, hr⟩⟩ :=
      mem_searchBusResources h hr
    · exact ⟨.here hd hrd, hmatches⟩
    · exact ⟨.deeper hd (mem_linkList_of_findLink hb') (ih hsub hr).1, (ih hsub hr).2⟩

lemma concat_isSome (h : ∀ x ∈ xs, x.isSome) : (concat xs).isSome := by
  induction xs with
  | nil => rfl
  | cons x xs ih =>
    obtain ⟨part, rfl⟩ := Option.isSome_iff_exists.mp (h x (by simp))
    obtain ⟨rest, hrest⟩ := Option.isSome_iff_exists.mp (ih fun y hy => h y (by simp [hy]))
    rw [concat, Option.bind_some, hrest]
    rfl

lemma searchDevice_isSome (h : ∀ b ∈ t.linkList d, (search b).isSome) :
    (searchDevice t search s typeMask type d l).isSome := by
  induction l with
  | nil => rfl
  | cons x l ih =>
    rw [searchDevice]
    split_ifs with hmatches hsub
    · exact ih
    · cases hlink : findLink t d (IOINDEX_SUBTRACTIVE_LINK (s x).index) with
      | none => rfl
      | some b =>
        obtain ⟨sub, hsub⟩ := Option.isSome_iff_exists.mp (h b (mem_linkList_of_findLink hlink))
        simpa [hsub] using ih
    · simpa using ih

lemma DeviceTree.search_isSome (h : DeviceTree t rank height) (hb : rank b ≤ height)
    (hdepth : height < rank b + depth) : (searchBusResources t s typeMask type depth b).isSome := by
  induction depth generalizing b with
  | zero => omega
  | succ depth ih =>
    refine concat_isSome fun x hx => ?_
    obtain ⟨d, hd, rfl⟩ := List.mem_map.mp hx
    split_ifs
    · rfl
    · refine searchDevice_isSome fun b' hb' => ?_
      have := h.rank_link hd hb'
      have := h.rank_lt hd
      exact ih (by omega) (by omega)

lemma concat_nodup (h : concat xs = some found) (hparts : ∀ part, some part ∈ xs → part.Nodup)
    (hdisj : xs.Pairwise fun x y => ∀ p ∈ x, ∀ q ∈ y, p.Disjoint q) : found.Nodup := by
  induction xs generalizing found with
  | nil =>
    obtain rfl := Option.some.inj h
    exact List.nodup_nil
  | cons x xs ih =>
    obtain ⟨hx, hxs⟩ := List.pairwise_cons.mp hdisj
    obtain ⟨part, rfl, h⟩ := Option.bind_eq_some_iff.mp h
    obtain ⟨rest, hrest, rfl⟩ := Option.map_eq_some_iff.mp h
    refine List.nodup_append'.mpr ⟨hparts part (by simp),
      ih hrest (fun p hp => hparts p (by simp [hp])) hxs, fun r hr hr' => ?_⟩
    obtain ⟨part', hpart', hr'⟩ := mem_concat hrest hr'
    exact hx (some part') hpart' part rfl part' rfl hr hr'

/-- Nothing is found twice on a device. -/
private lemma searchDevice_nodup (h : DeviceTree t rank height) (hs : PciResources t s)
    (hw : w.Plain) (hd : d ∈ t.children b) (hl : l ⊆ t.resourceList d) (hnodup : l.Nodup)
    (hsearch : ∀ b', ∀ sub ∈ search b', sub.Nodup ∧ ∀ r ∈ sub, BelowBus t b' r)
    (hfound : searchDevice t search s w.typeMask w.type d l = some found) : found.Nodup := by
  induction l generalizing found with
  | nil =>
    obtain rfl := Option.some.inj hfound
    exact List.nodup_nil
  | cons x l ih =>
    obtain ⟨hx, hl⟩ := List.cons_subset.mp hl
    obtain ⟨hxl, hnodup⟩ := List.nodup_cons.mp hnodup
    rw [searchDevice] at hfound
    split_ifs at hfound with hmatches hsub
    · exact ih hl hnodup hfound
    · cases hlink : findLink t d (IOINDEX_SUBTRACTIVE_LINK (s x).index) with
      | none =>
        rw [hlink] at hfound
        obtain rfl := Option.some.inj hfound
        exact List.nodup_nil
      | some b' =>
        rw [hlink] at hfound
        obtain ⟨sub, hfoundSub, hfound⟩ := Option.bind_eq_some_iff.mp hfound
        obtain ⟨rest, hrest, rfl⟩ := Option.map_eq_some_iff.mp hfound
        refine List.nodup_append'.mpr ⟨(hsearch b' sub hfoundSub).1, ih hl hnodup hrest,
          fun r hr hr' => ?_⟩
        have hbelow := (hsearch b' sub hfoundSub).2 r hr
        rcases mem_searchDevice hrest hr' with ⟨hrl, -⟩ | ⟨q, hq, hqm, hqs, b'', hb'', sub', hsub', hr'⟩
        · exact h.not_below_link hd (hl hrl) hd (mem_linkList_of_findLink hlink) hbelow
        · -- both lead to the bus that the resource is below
          obtain rfl : b' = b'' := h.bus_unique hbelow ((hsearch b'' sub' hsub').2 r hr')
            (by rw [h.rank_link hd (mem_linkList_of_findLink hlink),
              h.rank_link hd (mem_linkList_of_findLink hb'')])
          have hio := (hw.has_io hs (r := x) (by simpa using hmatches)).trans (hw.has_io hs hqm).symm
          obtain rfl := hs.subtractive d x hx q (hl hq) hsub hqs b' hlink hb'' hio
          exact hxl hq
    · obtain ⟨rest, hrest, rfl⟩ := Option.map_eq_some_iff.mp hfound
      refine List.nodup_cons.mpr ⟨fun hxr => ?_, ih hl hnodup hrest⟩
      rcases mem_searchDevice hrest hxr with ⟨hxl', -⟩ | ⟨q, -, -, -, b', hb', sub, hsub, hr⟩
      · exact hxl hxl'
      · exact h.not_below_link hd hx hd (mem_linkList_of_findLink hb') ((hsearch b' sub hsub).2 x hr)

/-- Nothing is found twice on a bus. -/
lemma DeviceTree.search_nodup (h : DeviceTree t rank height) (hs : PciResources t s)
    (hw : w.Plain) (hfound : searchBusResources t s w.typeMask w.type depth b = some found) :
    found.Nodup := by
  induction depth generalizing b found with
  | zero => simp [searchBusResources] at hfound
  | succ depth ih =>
    have hbelow : ∀ {d part}, searchDevice t (searchBusResources t s w.typeMask w.type depth) s
        w.typeMask w.type d (t.resourceList d) = some part → ∀ r ∈ part, BelowDevice t d r := by
      intro d part hpart r hr
      rcases mem_searchDevice hpart hr with ⟨hrd, -⟩ | ⟨q, -, -, -, b', hb', sub, hsub, hr⟩
      · exact Or.inl hrd
      · exact Or.inr ⟨b', mem_linkList_of_findLink hb', (belowBus_of_found hsub hr).1⟩
    refine concat_nodup hfound (fun part hpart => ?_) ?_
    · obtain ⟨d, hd, hpart⟩ := List.mem_map.mp hpart
      split_ifs at hpart
      · obtain rfl := Option.some.inj hpart
        exact List.nodup_nil
      · exact searchDevice_nodup h hs hw hd (List.Subset.refl _) (h.resources_nodup d)
          (fun b' sub hsub => ⟨ih hsub, fun r hr => (belowBus_of_found hsub hr).1⟩) hpart
    · refine List.pairwise_map.mpr (List.Pairwise.imp_of_mem ?_ (h.children_nodup b))
      intro d d' hd hd' hne p hp q hq r hrp hrq
      split_ifs at hp hq
      · obtain rfl := Option.some.inj hp
        simp at hrp
      · obtain rfl := Option.some.inj hp
        simp at hrp
      · obtain rfl := Option.some.inj hq
        simp at hrq
      · exact hne (h.device_unique hd hd' (hbelow hp r hrp) (hbelow hq r hrq))

end Search

/-! ### Windows -/

/-- The bridge of the window is a resource of the device that the bus belongs to. -/
def Attached (t : Topology) (w : Window) : Prop :=
  ∃ b d, d ∈ t.children b ∧ w.bridge ∈ t.resourceList d ∧ w.bus ∈ t.linkList d

/-- What a window of a bridge on the bus of `w` is. -/
structure IsChild (t : Topology) (s : Store) (w : Window) (d : DeviceId) (c : Window) : Prop where
  device : d ∈ t.children w.bus
  bridge : c.bridge ∈ t.resourceList d
  flag : (s c.bridge).has IORESOURCE_BRIDGE = true
  matches' : (s c.bridge).matches w.typeMask w.type = true
  link : findLink t d (IOINDEX_LINK (s c.bridge).index) = some c.bus
  typeMask : c.typeMask = w.typeMask ||| IORESOURCE_PREFETCH
  type : c.type = w.type ||| ((s c.bridge).flags &&& IORESOURCE_PREFETCH)

/-- The windows of one device in `Window.children`. -/
private lemma isChild_of_mem_device (hd : d ∈ t.children w.bus)
    (hc : some c ∈ if t.linkList d = [] then [] else
      ((t.resourceList d).filter fun childBridge =>
        (s childBridge).has IORESOURCE_BRIDGE && (s childBridge).matches w.typeMask w.type).map
      fun childBridge =>
        (findLink t d (IOINDEX_LINK (s childBridge).index)).map fun link =>
          (⟨link, childBridge, w.typeMask ||| IORESOURCE_PREFETCH,
            w.type ||| ((s childBridge).flags &&& IORESOURCE_PREFETCH)⟩ : Window)) :
    IsChild t s w d c := by
  split_ifs at hc with hlinks
  · simp at hc
  · obtain ⟨q, hq, hc⟩ := List.mem_map.mp hc
    obtain ⟨hqd, hflags⟩ := List.mem_filter.mp hq
    obtain ⟨link, hlink, rfl⟩ := Option.map_eq_some_iff.mp hc
    rw [Bool.and_eq_true] at hflags
    exact ⟨hd, hqd, hflags.1, hflags.2, hlink, rfl, rfl⟩

lemma Window.isChild_of_mem (hc : c ∈ w.childWindows t s) : ∃ d, IsChild t s w d c := by
  obtain ⟨d, hd, hmem⟩ := List.mem_flatMap.mp (Window.mem_childWindows.mp hc)
  exact ⟨d, isChild_of_mem_device hd hmem⟩

namespace IsChild

variable (hc : IsChild t s w d c)
include hc

lemma bus_mem : c.bus ∈ t.linkList d := mem_linkList_of_findLink hc.link

lemma attached : Attached t c := ⟨w.bus, d, hc.device, hc.bridge, hc.bus_mem⟩

lemma plain (hw : w.Plain) : c.Plain := by
  refine ⟨?_, ?_⟩
  · rw [hc.typeMask]
    rcases hw.typeMask with h | h | h | h <;> rw [h] <;> decide
  · have hp : IORESOURCE_PREFETCH &&& ( IORESOURCE_IO ||| IORESOURCE_MEM) = 0#32 := by decide
    rw [hc.type, hc.typeMask, BitVec.and_or_distrib_right, BitVec.and_or_distrib_right, hw.type,
      BitVec.and_assoc, hp, BitVec.and_zero, BitVec.or_zero]

/-- The type of the window below narrows that of the window above. -/
lemma matches_of_matches (hr : (s r).matches c.typeMask c.type = true) :
    (s r).matches w.typeMask w.type = true := by
  have hq := hc.matches'
  rw [Resource.matches, beq_iff_eq] at hr hq ⊢
  rw [hc.typeMask, hc.type] at hr
  calc (s r).flags &&& w.typeMask
      = (s r).flags &&& (w.typeMask ||| IORESOURCE_PREFETCH) &&& w.typeMask := by grind
    _ = (w.type ||| ((s c.bridge).flags &&& IORESOURCE_PREFETCH)) &&& w.typeMask := by rw [hr]
    _ = w.type := by rw [← hq]; grind

end IsChild

/-- Everything below a window is of its type, and below its bus. -/
lemma belowBus_of_below (hr : r ∈ below t s depth w) :
    BelowBus t w.bus r ∧ (s r).matches w.typeMask w.type = true := by
  induction depth generalizing w with
  | zero => simp [below] at hr
  | succ depth ih =>
    rw [below] at hr
    rcases List.mem_append.mp hr with hr | hr
    · cases hfound : w.resources t (depth + 1) s with
      | none => simp [hfound] at hr
      | some found => exact belowBus_of_found hfound (by simpa [hfound] using hr)
    · obtain ⟨c, hc, hr⟩ := List.mem_flatMap.mp hr
      obtain ⟨d, hchild⟩ := Window.isChild_of_mem hc
      rcases List.mem_cons.mp hr with rfl | hr
      · exact ⟨.here hchild.device hchild.bridge, hchild.matches'⟩
      · exact ⟨.deeper hchild.device hchild.bus_mem (ih hr).1, hchild.matches_of_matches (ih hr).2⟩

/-- What is below two windows of bridges on a bus is apart. -/
lemma IsChild.region_disjoint {c' : Window} (h : DeviceTree t rank height) (hs : PciResources t s)
    (hw : w.Plain) (hc : IsChild t s w d c) (hc' : IsChild t s w d' c')
    (hne : d = d' → c.bridge ≠ c'.bridge) :
    (region t s depth c).Disjoint (region t s depth c') := by
  have hbelow : ∀ {e v}, IsChild t s w e v → ∀ r ∈ region t s depth v, BelowDevice t e r := by
    intro e v hv r hr
    rcases List.mem_cons.mp hr with rfl | hr
    · exact Or.inl hv.bridge
    · exact Or.inr ⟨v.bus, hv.bus_mem, (belowBus_of_below hr).1⟩
  intro r hr hr'
  obtain rfl := h.device_unique hc.device hc'.device (hbelow hc r hr) (hbelow hc' r hr')
  rcases List.mem_cons.mp hr with rfl | hr <;> rcases List.mem_cons.mp hr' with heq | hr'
  · exact hne rfl heq
  · exact h.not_below_link hc.device hc.bridge hc.device hc'.bus_mem (belowBus_of_below hr').1
  · exact h.not_below_link hc.device (heq ▸ hc'.bridge) hc.device hc.bus_mem
      (belowBus_of_below hr).1
  · -- the windows lead to one bus, and are of different kinds
    obtain ⟨hbus, hmatches⟩ := belowBus_of_below hr
    obtain ⟨hbus', hmatches'⟩ := belowBus_of_below hr'
    have hlinks : c.bus = c'.bus := h.bus_unique hbus hbus'
      (by rw [h.rank_link hc.device hc.bus_mem, h.rank_link hc.device hc'.bus_mem])
    have htype : c.type = c'.type := by
      rw [Resource.matches, beq_iff_eq, hc.typeMask] at hmatches
      rw [Resource.matches, beq_iff_eq, hc'.typeMask] at hmatches'
      rw [← hmatches, hmatches']
    refine hne rfl (hs.window d _ hc.bridge _ hc'.bridge hc.flag hc'.flag ?_ ?_)
    · rw [hc.link, hc'.link, hlinks]
    · refine hw.kind_eq hs hc.matches' hc'.matches' ?_
      rw [← hc.type, ← hc'.type, htype]

/-- The tree below the window of a device is a tree of windows. -/
theorem isTree_of_attached (h : DeviceTree t rank height) (hs : PciResources t s) (hw : w.Plain)
    (hatt : Attached t w) (hdepth : height < rank w.bus + depth) : IsTree t s depth w := by
  induction depth generalizing w with
  | zero =>
    obtain ⟨b, d, hd, -, hbus⟩ := hatt
    have := h.rank_link hd hbus
    have := h.rank_lt hd
    omega
  | succ depth ih =>
    obtain ⟨b, d, hd, hbridge, hbus⟩ := hatt
    have hrank := h.rank_link hd hbus
    have hlt := h.rank_lt hd
    refine ⟨⟨fun hnone => ?_, h.search_isSome (by omega) hdepth, fun found hfound =>
      h.search_nodup hs hw hfound, fun hmem => ?_, fun found hfound c hc r hr hr' => ?_, ?_⟩,
      fun c hc => ?_⟩
    · obtain ⟨e, he, hnone⟩ := List.mem_flatMap.mp hnone
      split_ifs at hnone with hlinks
      · simp at hnone
      · obtain ⟨q, hq, hnone⟩ := List.mem_map.mp hnone
        obtain ⟨hqe, hflags⟩ := List.mem_filter.mp hq
        rw [Bool.and_eq_true] at hflags
        have hlink := hs.link e hlinks q hqe hflags.1
        rw [Option.map_eq_none_iff] at hnone
        rw [hnone] at hlink
        simp at hlink
    · have := h.rank_le (belowBus_of_below hmem).1 hd hbridge
      omega
    · obtain ⟨e, hchild⟩ := Window.isChild_of_mem hc
      have hbelow := (belowBus_of_below hr').1
      obtain ⟨e', he', -, ⟨hown, -⟩ | ⟨q, hq, -, hsub, b', hb', sub, hsubFound, hr⟩⟩ :=
        mem_searchBusResources hfound hr
      · exact h.not_below_link hchild.device hown he' hchild.bus_mem hbelow
      · have hlink := mem_linkList_of_findLink hb'
        obtain rfl := h.bus_unique hbelow (belowBus_of_found hsubFound hr).1
          (by rw [h.rank_link hchild.device hchild.bus_mem, h.rank_link he' hlink])
        obtain rfl := h.device hchild.bus_mem hlink
        have := hs.positive e _ hchild.bridge q hq hchild.flag
        simp [hsub] at this
    · rw [Window.childWindows, List.reduceOption, List.pairwise_filterMap, Window.children,
        List.pairwise_flatMap]
      refine ⟨fun e he => ?_, List.Pairwise.imp_of_mem ?_ (h.children_nodup w.bus)⟩
      · split_ifs with hlinks
        · exact List.Pairwise.nil
        · refine List.pairwise_map.mpr (List.Pairwise.imp_of_mem ?_
            ((h.resources_nodup e).filter _))
          intro q q' hq hq' hne c hc c' hc'
          rw [id] at hc hc'
          have hchild : IsChild t s w e c := isChild_of_mem_device he
            (by rw [if_neg hlinks]; exact List.mem_map.mpr ⟨q, hq, hc⟩)
          have hchild' : IsChild t s w e c' := isChild_of_mem_device he
            (by rw [if_neg hlinks]; exact List.mem_map.mpr ⟨q', hq', hc'⟩)
          obtain ⟨link, -, rfl⟩ := Option.map_eq_some_iff.mp hc
          obtain ⟨link', -, rfl⟩ := Option.map_eq_some_iff.mp hc'
          exact hchild.region_disjoint h hs hw hchild' fun _ => hne
      · intro e e' he he' hne x hx y hy c hc c' hc'
        rw [id] at hc hc'
        subst hc hc'
        exact (isChild_of_mem_device he hx).region_disjoint h hs hw (isChild_of_mem_device he' hy)
          fun heq => absurd heq hne
    · obtain ⟨e, hchild⟩ := Window.isChild_of_mem hc
      refine ih (hchild.plain hw) hchild.attached ?_
      have := h.rank_link hchild.device hchild.bus_mem
      omega

end ApuBios.Allocator
