import ApuBios.Device.Allocator.Search

/-!
# Iterating over the resources of a bus

`largest_resource` keeps nothing between two calls but the resource that it returned last. The
calls still go through the resources of a bus in one order, whatever the caller does in between to
bases, limits and flags that the search does not look at.
-/

namespace ApuBios.Allocator

open Selection Relation

/-- The caller changes bases, limits and flags outside of `kept`, and only those of resources that
were returned. -/
structure Changes (kept : BitVec 32) (returned : List ResourceId) (s s' : Store) : Prop where
  others : ∀ r, r ∉ returned → s' r = s r
  fields : ∀ r, s' r = { s r with base := (s' r).base, limit := (s' r).limit, flags := (s' r).flags }
  flags : ∀ r, (s' r).flags &&& kept = (s r).flags &&& kept

structure Iteration where
  store : Store
  /-- what the calls of `largest_resource` returned, the last one at the end -/
  returned : List ResourceId

/-- A call that returns a resource, or a change that the caller makes. -/
inductive Iterates (t : Topology) (depth : ℕ) (w : Window) (kept : BitVec 32) :
    Iteration → Iteration → Prop
  | call {x r} : largestResource t depth x.store w x.returned.getLast? = some (some r) →
      Iterates t depth w kept x { x with returned := x.returned ++ [r] }
  | change {x s'} : Changes kept x.returned x.store s' →
      Iterates t depth w kept x { x with store := s' }

/-- Whatever happens between the calls, the resources of the list are returned one by one, and then
none. -/
def Returns (t : Topology) (depth : ℕ) (w : Window) (kept : BitVec 32) (s : Store)
    (order : List ResourceId) : Prop :=
  ∀ x, ReflTransGen (Iterates t depth w kept) ⟨s, []⟩ x →
    x.returned = order.take x.returned.length ∧
      largestResource t depth x.store w x.returned.getLast? = some order[x.returned.length]?

/-- The resources that are not fixed, by alignment and size, and in the order of the search where
both are the same. -/
structure InOrder (s : Store) (found order : List ResourceId) : Prop where
  perm : order.Perm (movable s found)
  sorted : order.Pairwise (Before (sortKey s) fun r => (movable s found).idxOf r)

/-- The flags that the search and the choice of a resource depend on. -/
def lookedAt (w : Window) : BitVec 32 :=
  IORESOURCE_FIXED ||| IORESOURCE_SUBTRACTIVE ||| w.typeMask

/-- The stores are the same to the search and to the choice of a resource. -/
structure LooksSame (w : Window) (s s' : Store) : Prop where
  index : ∀ r, (s' r).index = (s r).index
  key : ∀ r, sortKey s' r = sortKey s r
  flags : ∀ r, (s' r).flags &&& lookedAt w = (s r).flags &&& lookedAt w

variable {t : Topology} {s s' s'' : Store} {w : Window} {depth : ℕ} {found order : List ResourceId}
  {rank : BusId → ℕ} {height : ℕ}

lemma LooksSame.refl (s : Store) : LooksSame w s s := ⟨fun _ => rfl, fun _ => rfl, fun _ => rfl⟩

lemma LooksSame.trans (h : LooksSame w s s') (h' : LooksSame w s' s'') : LooksSame w s s'' where
  index r := (h'.index r).trans (h.index r)
  key r := (h'.key r).trans (h.key r)
  flags r := (h'.flags r).trans (h.flags r)

lemma Changes.looksSame {returned : List ResourceId} (h : Changes (lookedAt w) returned s s') :
    LooksSame w s s' where
  index r := by rw [h.fields r]
  key r := by rw [sortKey, h.fields r, sortKey]
  flags := h.flags

section LooksSame

variable (h : LooksSame w s s')
include h

lemma LooksSame.and_eq {mask : BitVec 32} (hmask : lookedAt w &&& mask = mask) (r : ResourceId) :
    (s' r).flags &&& mask = (s r).flags &&& mask := by
  rw [← hmask, ← BitVec.and_assoc, ← BitVec.and_assoc, h.flags r]

lemma LooksSame.isFixed_eq (r : ResourceId) : isFixed s' r = isFixed s r := by
  have hmask : lookedAt w &&& IORESOURCE_FIXED = IORESOURCE_FIXED := by
    ext i hi
    simp +contextual [lookedAt]
  rw [isFixed, Resource.has, h.and_eq hmask, isFixed, Resource.has]

lemma LooksSame.resources_eq : w.resources t depth s' = w.resources t depth s := by
  have hsub : lookedAt w &&& IORESOURCE_SUBTRACTIVE = IORESOURCE_SUBTRACTIVE := by
    ext i hi
    simp +contextual [lookedAt]
  have htype : lookedAt w &&& w.typeMask = w.typeMask := by
    ext i hi
    simp +contextual [lookedAt]
  apply searchBusResources_congr
  · intro r
    rw [Resource.matches, h.and_eq htype, Resource.matches]
  · intro r
    rw [Resource.has, h.and_eq hsub, Resource.has]
  · exact h.index

end LooksSame

section Run

variable (hfound : w.resources t depth s = some found)
  (hselects : Selects (sortKey s) (movable s found) none order) (hperm : order.Perm (movable s found))
include hfound hselects hperm

/-- A call returns the resource that follows in the order. -/
lemma largestResource_next {x : Iteration} (hstore : LooksSame w s x.store)
    (hpart : x.returned <+: order) :
    largestResource t depth x.store w x.returned.getLast? = some order[x.returned.length]? := by
  obtain ⟨rest, rfl⟩ := hpart
  have hlast : ∀ y ∈ x.returned.getLast?, y ∈ movable s found := fun y hy =>
    hperm.mem_iff.mp (List.mem_append_left rest (List.mem_of_getLast? hy))
  rw [largestResource_congr (hstore.resources_eq.trans hfound) hstore.isFixed_eq
    (fun r _ => hstore.key r) hlast]
  have hnext := hselects.largest_eq
  rw [Option.or_none] at hnext
  rw [hnext, List.getElem?_append_right le_rfl, Nat.sub_self, List.head?_eq_getElem?]

lemma Iterates.keeps {x y : Iteration} (h : Iterates t depth w (lookedAt w) x y)
    (hstore : LooksSame w s x.store) (hpart : x.returned <+: order) :
    LooksSame w s y.store ∧ y.returned <+: order := by
  cases h with
  | @call r hcall =>
    refine ⟨hstore, ?_⟩
    rw [largestResource_next hfound hselects hperm hstore hpart, Option.some_inj] at hcall
    obtain ⟨rest, rfl⟩ := hpart
    rw [List.getElem?_append_right le_rfl, Nat.sub_self] at hcall
    cases rest with
    | nil => simp at hcall
    | cons r' rest =>
      obtain rfl : r' = r := by simpa using hcall
      exact ⟨rest, by simp⟩
  | change hchange => exact ⟨hstore.trans hchange.looksSame, hpart⟩

lemma returns_of_selects : Returns t depth w (lookedAt w) s order := by
  intro x hrun
  have hinv : LooksSame w s x.store ∧ x.returned <+: order := by
    induction hrun with
    | refl => exact ⟨.refl s, order, rfl⟩
    | tail _ hstep ih => exact hstep.keeps hfound hselects hperm ih.1 ih.2
  exact ⟨List.prefix_iff_eq_take.mp hinv.2,
    largestResource_next hfound hselects hperm hinv.1 hinv.2⟩

end Run

/-- Calls from none return every resource that is not fixed and that the search comes to, once and in
order, and then none, if the search comes to none of them twice. -/
theorem largestResource_returns (h : DeviceTree t rank height) (hb : rank w.bus ≤ height)
    (hdepth : height < rank w.bus + depth) :
    ∃ found, w.resources t depth s = some found ∧ ((movable s found).Nodup →
      ∃ order, InOrder s found order ∧ Returns t depth w (lookedAt w) s order ∧
        (Enumerates t s w.typeMask w.type w.bus found → ∀ r, r ∈ order ↔
          Reach t s w.typeMask w.type w.bus r ∧ isFixed s r = false)) := by
  refine ⟨_, searchBusResources_eq h hb hdepth, fun hnodup => ?_⟩
  obtain ⟨order, hperm, hsorted, hselects⟩ :=
    exists_selects_before (sortKey s) (pairwise_idxOf hnodup)
  refine ⟨order, ⟨hperm, hsorted⟩, ?_, fun hall r => ?_⟩
  · exact returns_of_selects (searchBusResources_eq h hb hdepth) hselects hperm
  · rw [hperm.mem_iff, mem_movable, hall.mem_iff]

/-- Three resources of one alignment and size, two of them behind a subtractive resource. -/
def tiedStore : Store
  | 0 => ⟨0, 0, 0, MEM_TYPE ||| IORESOURCE_SUBTRACTIVE, 0, 0, 0⟩
  | r => ⟨0, 0x1000, 0xffffffff, MEM_TYPE, r, 12, 12⟩

def tiedWindow : Window := ⟨0, 4, MEM_TYPE ||| IORESOURCE_PREFETCH, MEM_TYPE⟩

theorem largestResource_returns_tied :
    ∃ order, InOrder tiedStore [2, 3, 1] order ∧
      Returns chainTopology 4 tiedWindow (lookedAt tiedWindow) tiedStore order := by
  obtain ⟨found, hfound, hreturns⟩ := @largestResource_returns chainTopology tiedStore
    tiedWindow 4 id 3 chainTopology_tree (by decide) (by decide)
  obtain rfl : found = [2, 3, 1] := by
    have hsearch : tiedWindow.resources chainTopology 4 tiedStore = some [2, 3, 1] := by decide
    exact Option.some.inj (hfound.symm.trans hsearch)
  obtain ⟨order, horder, hrun, -⟩ := hreturns (by decide)
  exact ⟨order, horder, hrun⟩

/-- The caller makes the first resource prefetchable: the search does not come to it any more, and the
resources that tie with it are left out. -/
theorem not_returns_prefetchable :
    tiedWindow.resources chainTopology 4 tiedStore = some [2, 3, 1] ∧
      ¬∃ order, InOrder tiedStore [2, 3, 1] order ∧
        Returns chainTopology 4 tiedWindow IORESOURCE_FIXED tiedStore order := by
  refine ⟨by decide, ?_⟩
  rintro ⟨order, horder, hreturns⟩
  have hlength : order.length = 3 := horder.perm.length_eq.trans (by decide)
  let changed : Store := tiedStore.modify 2 fun r => { r with flags := r.flags ||| IORESOURCE_PREFETCH }
  have hother : ∀ r, r ≠ 2 → changed r = tiedStore r := fun r hr => Function.update_of_ne hr _ _
  have hchange : Changes IORESOURCE_FIXED [2] tiedStore changed := by
    refine ⟨fun r hr => hother r (by simpa using hr), fun r => ?_, fun r => ?_⟩
    · by_cases hr : r = 2
      · subst hr
        decide
      · rw [hother r hr]
    · by_cases hr : r = 2
      · subst hr
        decide
      · rw [hother r hr]
  have hcall : largestResource chainTopology 4 tiedStore tiedWindow none = some (some 2) := by decide
  obtain ⟨-, hnext⟩ := hreturns ⟨changed, [2]⟩ (.tail (.single (.call hcall)) (.change hchange))
  have hnone : largestResource chainTopology 4 changed tiedWindow (some 2) = some none := by decide
  have hend : (none : Option ResourceId) = order[1]? := Option.some.inj (hnone.symm.trans hnext)
  have hlast : order.length ≤ 1 := List.getElem?_eq_none_iff.mp hend.symm
  omega

end ApuBios.Allocator
