import ApuBios.Device.Allocator.Compute

/-!
# The second pass

If a window is placed where it fits, everything below it fits into the windows that the first pass
has sized (`allocateResources_placed`).
-/

namespace ApuBios.Allocator

open Packing

/-- The resources on the bus of a window are assigned, aligned, inside the window, and apart. -/
structure PlacedAt (s : Store) (w : Window) (found : List ResourceId) : Prop where
  placed : ∀ r ∈ movable s found, (s r).size ≠ 0 →
    (s r).has IORESOURCE_ASSIGNED = true ∧ 2 ^ (s r).align ∣ (s r).base ∧
      (s w.bridge).base ≤ (s r).base ∧
        (s r).base + (s r).size ≤ (s w.bridge).base + (s w.bridge).size
  apart : ∀ r ∈ movable s found, ∀ q ∈ movable s found, r ≠ q → (s r).size ≠ 0 → (s q).size ≠ 0 →
    (s r).base + (s r).size ≤ (s q).base ∨ (s q).base + (s q).size ≤ (s r).base

abbrev Placed (t : Topology) (s : Store) (depth : ℕ) (w : Window) : Prop :=
  Everywhere t s (PlacedAt s) depth w

/-- The bridges of the windows are on the bus themselves and are not fixed. -/
abbrev Bridged (t : Topology) (s : Store) (depth : ℕ) (w : Window) : Prop :=
  Everywhere t s (fun v found => ∀ c ∈ v.childWindows t s, c.bridge ∈ movable s found) depth w

/-- A window with I/O resources is aligned to at least 0x400. -/
abbrev IoAligned (t : Topology) (s : Store) (depth : ℕ) (w : Window) : Prop :=
  Everywhere t s (fun v found => (∃ r ∈ found, (s r).has IORESOURCE_IO = true) →
    10 ≤ (s v.bridge).align) depth w

variable {t : Topology} {s s' s'' : Store} {w c : Window} {depth : ℕ} {r bridge : ResourceId}
  {found order : List ResourceId}

/-! ### Resources that keep their place -/

structure Kept (a b : Resource) : Prop where
  base : b.base = a.base
  size : b.size = a.size
  limit : b.limit = a.limit
  align : b.align = a.align
  gran : b.gran = a.gran
  assigned : a.has IORESOURCE_ASSIGNED = true → b.has IORESOURCE_ASSIGNED = true

lemma Kept.of_eq {a b : Resource} (h : b = a) : Kept a b := by
  subst h
  exact ⟨rfl, rfl, rfl, rfl, rfl, id⟩

lemma Kept.trans {a b d : Resource} (h : Kept a b) (h' : Kept b d) : Kept a d :=
  ⟨h'.base.trans h.base, h'.size.trans h.size, h'.limit.trans h.limit, h'.align.trans h.align,
    h'.gran.trans h.gran, fun ha => h'.assigned (h.assigned ha)⟩

lemma PlacedAt.congr (h : PlacedAt s w found) (hs : SameShape s s')
    (hfound : ∀ r ∈ found, Kept (s r) (s' r)) (hbridge : Kept (s w.bridge) (s' w.bridge)) :
    PlacedAt s' w found := by
  have hkept : ∀ r ∈ movable s found, Kept (s r) (s' r) := fun r hr => hfound r (mem_movable.mp hr).1
  refine ⟨fun r hr hsize => ?_, fun r hr q hq hne hrs hqs => ?_⟩
  · rw [hs.movable_eq] at hr
    rw [(hkept r hr).size] at hsize
    obtain ⟨hassigned, hdvd, hlow, hhigh⟩ := h.placed r hr hsize
    rw [(hkept r hr).align, (hkept r hr).base, (hkept r hr).size, hbridge.base, hbridge.size]
    exact ⟨(hkept r hr).assigned hassigned, hdvd, hlow, hhigh⟩
  · rw [hs.movable_eq] at hr hq
    rw [(hkept r hr).size] at hrs
    rw [(hkept q hq).size] at hqs
    rw [(hkept r hr).base, (hkept r hr).size, (hkept q hq).base, (hkept q hq).size]
    exact h.apart r hr q hq hne hrs hqs

lemma Placed.congr (h : Placed t s depth w) (hs : SameShape s s') (hw : w.Typed)
    (hkept : ∀ r ∈ region t s depth w, Kept (s r) (s' r)) : Placed t s' depth w :=
  Everywhere.imp h hs hw fun _ _ _ hv hsub hat =>
    hat.congr hs (fun r hr => hkept r (List.mem_cons_of_mem _ (hsub hr))) (hkept _ hv)

lemma Bridged.congr (h : Bridged t s depth w) (hs : SameShape s s') (hw : w.Typed) :
    Bridged t s' depth w :=
  Everywhere.imp h hs hw fun v found hv _ _ hat c hc => by
    rw [Window.childWindows_congr hs hv] at hc
    rw [hs.movable_eq]
    exact hat c hc

/-! ### The flags -/

lemma and_status_assign (f : BitVec 32) :
    (f ||| IORESOURCE_ASSIGNED) &&& ~~~STATUS = f &&& ~~~STATUS := by
  have hassigned : IORESOURCE_ASSIGNED &&& ~~~STATUS = 0#32 := by decide
  rw [BitVec.and_or_distrib_right, hassigned, BitVec.or_zero]

lemma and_status_store (f : BitVec 32) :
    (f &&& ~~~IORESOURCE_STORED) &&& ~~~STATUS = f &&& ~~~STATUS := by
  have hstored : ~~~IORESOURCE_STORED &&& ~~~STATUS = ~~~STATUS := by decide
  rw [BitVec.and_assoc, hstored]

lemma and_assigned (f : BitVec 32) :
    (f ||| IORESOURCE_ASSIGNED) &&& IORESOURCE_ASSIGNED = IORESOURCE_ASSIGNED := by grind

lemma assigned_of_assign (f : BitVec 32) :
    (((f ||| IORESOURCE_ASSIGNED) &&& ~~~IORESOURCE_STORED) &&& IORESOURCE_ASSIGNED != 0) = true := by
  have hstored : ~~~IORESOURCE_STORED &&& IORESOURCE_ASSIGNED = IORESOURCE_ASSIGNED := by decide
  rw [BitVec.and_assoc, hstored, and_assigned]
  decide

/-! ### The loop -/

lemma modify_limit_resource : (if (s r).limit > (s bridge).limit then
    s.modify r fun a => { a with limit := (s bridge).limit } else s) =
      s.modify r fun a => { a with limit := min a.limit (s bridge).limit } := by
  split_ifs with h
  · rw [Store.modify, Store.modify, min_eq_right (le_of_lt h)]
  · rw [Store.modify, min_eq_left (not_lt.mp h), Function.update_eq_self]

lemma allocateResource_zero {x : AllocateState} (hsize : (x.store r).size = 0) :
    allocateResource bridge r x = { x with store := x.store.modify r fun a => { a with
      base := min a.limit (x.store bridge).limit
      limit := min a.limit (x.store bridge).limit
      flags := a.flags ||| IORESOURCE_ASSIGNED } } := by
  simp only [allocateResource, modify_limit_resource, Store.modify_self, if_pos hsize]
  rw [Store.modify, Store.modify, Store.modify, Function.update_idem, Function.update_self]

/-- What one round does if the resource has a size. -/
lemma allocateResource_fits {x : AllocateState} (hsize : (x.store r).size ≠ 0)
    (halign : (x.store r).align < 64)
    (hfit : place x.store x.base r + (x.store r).size ≤
      min (x.store r).limit (x.store bridge).limit + 1)
    (hlimit : (x.store bridge).limit < 2 ^ 64) :
    allocateResource bridge r x = { x with
      store := x.store.modify r fun a => { a with
        base := place x.store x.base r
        limit := min a.limit (x.store bridge).limit
        flags := (a.flags ||| IORESOURCE_ASSIGNED) &&& ~~~IORESOURCE_STORED }
      base := Word.add 64 (place x.store x.base r) (x.store r).size } := by
  have hmin := min_le_right (x.store r).limit (x.store bridge).limit
  have hround := round_skipAliases_eq hsize halign (show place x.store x.base r < 2 ^ 64 by omega)
  have hlast := Word.sub_add_one (w := 64) (show 0 < place x.store x.base r + (x.store r).size by omega)
    (by omega)
  have hflag : ∀ l, ({ x.store r with limit := l } : Resource).has IORESOURCE_IO =
      (x.store r).has IORESOURCE_IO := fun _ => rfl
  have hle : place x.store x.base r + (x.store r).size - 1 ≤
      min (x.store r).limit (x.store bridge).limit := by omega
  simp only [allocateResource, modify_limit_resource, Store.modify_self, if_neg hsize, hflag,
    hround, hlast, if_pos hle]
  rw [Store.modify, Store.modify, Store.modify, Function.update_idem, Function.update_self]

/-- Whether the resource fits or not, no other resource is changed. -/
lemma allocateResource_other {x : AllocateState} {q : ResourceId} (hq : q ≠ r) :
    (allocateResource bridge r x).store q = x.store q := by
  simp only [allocateResource, modify_limit_resource]
  split_ifs <;> simp only [Store.modify_of_ne hq]

lemma allocateResource_self (bridge r : ResourceId) (x : AllocateState) :
    ((allocateResource bridge r x).store r).size = (x.store r).size ∧
      ((allocateResource bridge r x).store r).align = (x.store r).align ∧
      ((allocateResource bridge r x).store r).index = (x.store r).index ∧
      ((allocateResource bridge r x).store r).flags &&& ~~~STATUS =
        (x.store r).flags &&& ~~~STATUS := by
  simp only [allocateResource, modify_limit_resource]
  split_ifs <;> simp only [Store.modify_self, and_status_store, and_status_assign, and_self]

lemma allocateResource_sameOrder {x : AllocateState} :
    SameOrder found x.store (allocateResource bridge r x).store := by
  obtain ⟨hsize, halign, hindex, hflags⟩ := allocateResource_self bridge r x
  refine ⟨fun q => ?_, fun q _ => ?_⟩
  · by_cases hq : q = r
    · rw [hq]
      exact ⟨hindex, hflags⟩
    · rw [allocateResource_other hq]
      exact ⟨rfl, rfl⟩
  · by_cases hq : q = r
    · rw [sortKey, hq, halign, hsize, sortKey]
    · rw [sortKey, allocateResource_other hq, sortKey]

/-- The resource has a place between `low` and `high`. -/
structure PlacedIn (a : Resource) (low high : ℕ) : Prop where
  assigned : a.has IORESOURCE_ASSIGNED = true
  aligned : 2 ^ a.align ∣ a.base
  low : low ≤ a.base
  high : a.base + a.size ≤ high

/-- After the resources `p`, starting from the store `s₀`. -/
structure FitInv (s₀ : Store) (bridge : ResourceId) (didntFit : List ResourceId)
    (p : List ResourceId) (x : AllocateState) : Prop where
  frame : ∀ q, q ∉ p → x.store q = s₀ q
  shape : SameShape s₀ x.store
  same : ∀ q, (x.store q).size = (s₀ q).size ∧ (x.store q).align = (s₀ q).align ∧
    (x.store q).gran = (s₀ q).gran
  limit : ∀ r ∈ p, (x.store r).limit = min (s₀ r).limit (s₀ bridge).limit
  zero : ∀ r ∈ p, (s₀ r).size = 0 → (x.store r).base = (x.store r).limit
  placed : ∀ r ∈ p, (s₀ r).size ≠ 0 → PlacedIn (x.store r) (s₀ bridge).base
    ((s₀ bridge).base + packResources s₀ 0 p)
  apart : ∀ r ∈ p, ∀ q ∈ p, r ≠ q → (s₀ r).size ≠ 0 → (s₀ q).size ≠ 0 →
    (x.store r).base + (x.store r).size ≤ (x.store q).base ∨
      (x.store q).base + (x.store q).size ≤ (x.store r).base
  base : x.base = ((s₀ bridge).base + packResources s₀ 0 p) % 2 ^ 64
  didntFit : x.didntFit = didntFit

/-- One more resource has its place behind the others, or no size. -/
private lemma FitInv.extend {s₀ : Store} {didntFit p : List ResourceId} {x x' : AllocateState}
    (h : FitInv s₀ bridge didntFit p x) (hrp : r ∉ p)
    (hother : ∀ q, q ≠ r → x'.store q = x.store q)
    (hindex : (x'.store r).index = (s₀ r).index)
    (hflags : (x'.store r).flags &&& ~~~STATUS = (s₀ r).flags &&& ~~~STATUS)
    (hsame : (x'.store r).size = (s₀ r).size ∧ (x'.store r).align = (s₀ r).align ∧
      (x'.store r).gran = (s₀ r).gran)
    (hlimit : (x'.store r).limit = min (s₀ r).limit (s₀ bridge).limit)
    (hzero : (s₀ r).size = 0 → (x'.store r).base = (x'.store r).limit)
    (hplaced : (s₀ r).size ≠ 0 → PlacedIn (x'.store r) ((s₀ bridge).base + packResources s₀ 0 p)
      ((s₀ bridge).base + packResources s₀ 0 (p ++ [r])))
    (hbase : x'.base = ((s₀ bridge).base + packResources s₀ 0 (p ++ [r])) % 2 ^ 64)
    (hdidntFit : x'.didntFit = didntFit) : FitInv s₀ bridge didntFit (p ++ [r]) x' := by
  have hle : packResources s₀ 0 p ≤ packResources s₀ 0 (p ++ [r]) := by
    rw [packResources, packResources, pack_append]
    exact le_pack fun _ _ _ => le_place
  have hne : ∀ q ∈ p, q ≠ r := fun q hq hqr => hrp (hqr ▸ hq)
  have hbehind : ∀ q ∈ p, (s₀ q).size ≠ 0 → (s₀ r).size ≠ 0 →
      (x.store q).base + (x.store q).size ≤ (x'.store r).base := fun q hq hqs hrs =>
    (h.placed q hq hqs).high.trans (hplaced hrs).low
  have hmem : ∀ {q}, q ∈ p ++ [r] → q ≠ r → q ∈ p := fun hq hqr => by simpa [hqr] using hq
  refine ⟨fun q hq => ?_, fun q => ?_, fun q => ?_, fun q hq => ?_, fun q hq hqs => ?_,
    fun q hq hqs => ?_, fun a ha b hb hab has hbs => ?_, hbase, hdidntFit⟩
  · rw [hother q fun hqr => hq (by simp [hqr])]
    exact h.frame q fun hqp => hq (by simp [hqp])
  · by_cases hqr : q = r
    · exact hqr ▸ ⟨hindex, hflags⟩
    · rw [hother q hqr]
      exact h.shape q
  · by_cases hqr : q = r
    · exact hqr ▸ hsame
    · rw [hother q hqr]
      exact h.same q
  · by_cases hqr : q = r
    · exact hqr ▸ hlimit
    · rw [hother q hqr]
      exact h.limit q (hmem hq hqr)
  · by_cases hqr : q = r
    · exact hqr ▸ hzero (hqr ▸ hqs)
    · rw [hother q hqr]
      exact h.zero q (hmem hq hqr) hqs
  · by_cases hqr : q = r
    · subst hqr
      obtain ⟨hassigned, haligned, hlow, hhigh⟩ := hplaced hqs
      exact ⟨hassigned, haligned, (Nat.le_add_right _ _).trans hlow, hhigh⟩
    · rw [hother q hqr]
      obtain ⟨hassigned, haligned, hlow, hhigh⟩ := h.placed q (hmem hq hqr) hqs
      exact ⟨hassigned, haligned, hlow, hhigh.trans (Nat.add_le_add_left hle _)⟩
  · by_cases har : a = r
    · subst har
      have hbp := hmem hb (Ne.symm hab)
      rw [hother b (Ne.symm hab)]
      exact Or.inr (hbehind b hbp hbs has)
    · rw [hother a har]
      by_cases hbr : b = r
      · subst hbr
        exact Or.inl (hbehind a (hmem ha har) has hbs)
      · rw [hother b hbr]
        exact h.apart a (hmem ha har) b (hmem hb hbr) hab has hbs

lemma FitInv.step {s₀ : Store} {didntFit p : List ResourceId} {x : AllocateState}
    (h : FitInv s₀ bridge didntFit p x) (hvalid : Valid s₀) (hrp : r ∉ p) (hbp : bridge ∉ p)
    (halign : (s₀ r).size ≠ 0 → 2 ^ (s₀ r).align ∣ (s₀ bridge).base)
    (hio : (s₀ r).size ≠ 0 → (s₀ r).has IORESOURCE_IO = true → 0x400 ∣ (s₀ bridge).base)
    (hlimit : (s₀ r).size ≠ 0 → (s₀ bridge).limit ≤ (s₀ r).limit)
    (hfit : (s₀ bridge).base + packResources s₀ 0 (p ++ [r]) ≤ (s₀ bridge).limit + 1) :
    FitInv s₀ bridge didntFit (p ++ [r]) (allocateResource bridge r x) := by
  have hr : x.store r = s₀ r := h.frame r hrp
  have hb : x.store bridge = s₀ bridge := h.frame bridge hbp
  have hpack : packResources s₀ 0 (p ++ [r]) =
      place s₀ (packResources s₀ 0 p) r + (s₀ r).size := by
    rw [packResources, pack_append]
    rfl
  have hlim := (hvalid bridge).2.1
  by_cases hsize : (s₀ r).size = 0
  · have hsame : packResources s₀ 0 (p ++ [r]) = packResources s₀ 0 p := by
      rw [hpack, place, if_pos hsize, hsize, Nat.add_zero]
    rw [allocateResource_zero (hr ▸ hsize)]
    have hself : ∀ f : Resource → Resource, x.store.modify r f r = f (s₀ r) := fun f => by
      rw [Store.modify_self, hr]
    refine h.extend hrp (fun q hq => by simp only [Store.modify_of_ne hq]) ?_ ?_ ?_ ?_ ?_
      (fun hs => absurd hsize hs)
      ?_ h.didntFit
    · simp only [hself]
    · simp only [hself, and_status_assign]
    · simp only [hself, and_self]
    · simp only [hself, hb]
    · simp only [hself, implies_true]
    · rw [hsame]
      exact h.base
  · have hplace : place s₀ ((s₀ bridge).base + packResources s₀ 0 p) r =
        (s₀ bridge).base + place s₀ (packResources s₀ 0 p) r := place_shift halign hio
    have hle : packResources s₀ 0 p ≤ place s₀ (packResources s₀ 0 p) r := le_place
    have hbase : x.base = (s₀ bridge).base + packResources s₀ 0 p := by
      rw [h.base, Nat.mod_eq_of_lt (by omega)]
    have hplace' : place x.store x.base r = (s₀ bridge).base + place s₀ (packResources s₀ 0 p) r := by
      rw [hbase, ← hplace]
      exact place_congr (by rw [hr]) (by rw [hr]) (by rw [hr])
    have hself : ∀ f : Resource → Resource, x.store.modify r f r = f (s₀ r) := fun f => by
      rw [Store.modify_self, hr]
    have hmin : min (s₀ r).limit (s₀ bridge).limit = (s₀ bridge).limit := min_eq_right (hlimit hsize)
    rw [allocateResource_fits (hr ▸ hsize) (hr ▸ (hvalid r).2.2.1)
      (by rw [hplace', hr, hb, hmin]; omega) (hb ▸ hlim), hplace', hr, hb]
    refine h.extend hrp (fun q hq => by simp only [Store.modify_of_ne hq]) ?_ ?_ ?_ ?_
      (fun hs => absurd hs hsize)
      (fun _ => ?_) ?_ h.didntFit
    · simp only [hself]
    · simp only [hself, and_status_store, and_status_assign]
    · simp only [hself, and_self]
    · simp only [hself]
    · simp only [hself]
      refine ⟨assigned_of_assign _, ?_, Nat.add_le_add_left hle _, ?_⟩
      · exact Nat.dvd_add (halign hsize) (dvd_place hsize)
      · rw [hpack]
        simp only
        omega
    · rw [hpack, Word.add, Nat.add_assoc]

lemma FitInv.foldl {s₀ : Store} {didntFit : List ResourceId} (hvalid : Valid s₀)
    (hnodup : order.Nodup) (hbridge : bridge ∉ order) (hbase : (s₀ bridge).base < 2 ^ 64)
    (halign : ∀ r ∈ order, (s₀ r).size ≠ 0 → 2 ^ (s₀ r).align ∣ (s₀ bridge).base)
    (hio : ∀ r ∈ order, (s₀ r).size ≠ 0 → (s₀ r).has IORESOURCE_IO = true →
      0x400 ∣ (s₀ bridge).base)
    (hlimit : ∀ r ∈ order, (s₀ r).size ≠ 0 → (s₀ bridge).limit ≤ (s₀ r).limit)
    (hfit : (s₀ bridge).base + packResources s₀ 0 order ≤ (s₀ bridge).limit + 1) :
    FitInv s₀ bridge didntFit order (order.foldl (fun x r => allocateResource bridge r x)
      ⟨s₀, (s₀ bridge).base, didntFit⟩) := by
  induction order using List.reverseRecOn with
  | nil =>
    refine ⟨fun _ _ => rfl, .refl _, fun _ => ⟨rfl, rfl, rfl⟩, by simp, by simp, by simp, by simp, ?_,
      rfl⟩
    exact (Nat.mod_eq_of_lt hbase).symm
  | append_singleton p r ih =>
    rw [List.foldl_append, List.foldl_cons, List.foldl_nil]
    rw [List.nodup_append] at hnodup
    have hrp : r ∉ p := fun h => hnodup.2.2 r h r (by simp) rfl
    have hle : packResources s₀ 0 p ≤ packResources s₀ 0 (p ++ [r]) := by
      rw [packResources, packResources, pack_append]
      exact le_pack fun _ _ _ => le_place
    refine FitInv.step (ih hnodup.1 (fun h => hbridge (by simp [h]))
      (fun q hq => halign q (by simp [hq])) (fun q hq => hio q (by simp [hq]))
      (fun q hq => hlimit q (by simp [hq])) (by omega)) hvalid hrp (fun h => hbridge (by simp [h]))
      (halign r (by simp)) (hio r (by simp)) (hlimit r (by simp)) hfit

/-! ### The recursion -/

/-- The window is sized, and placed where it fits. -/
structure Ready (t : Topology) (s : Store) (depth : ℕ) (w : Window) : Prop where
  typed : w.Typed
  tree : IsTree t s depth w
  sized : Sized t s depth w
  io : IoAligned t s depth w
  bridged : Bridged t s depth w
  base_lt : (s w.bridge).base < 2 ^ 64
  aligned : (s w.bridge).size ≠ 0 → 2 ^ (s w.bridge).align ∣ (s w.bridge).base
  fits : (s w.bridge).base + (s w.bridge).size ≤ (s w.bridge).limit + 1

lemma IoAligned.congr (h : IoAligned t s depth w) (hs : SameShape s s') (hw : w.Typed)
    (halign : ∀ r, (s' r).align = (s r).align) : IoAligned t s' depth w :=
  Everywhere.imp h hs hw fun v _ _ _ _ hat ⟨r, hr, hflag⟩ => by
    rw [halign]
    exact hat ⟨r, hr, (hs.has_eq (by decide) r).symm.trans hflag⟩

lemma Ready.congr (h : Ready t s depth w) (hs : SameShape s s')
    (heq : ∀ r ∈ region t s depth w, s' r = s r) : Ready t s' depth w := by
  have hbridge : s' w.bridge = s w.bridge := heq _ List.mem_cons_self
  refine ⟨h.typed, h.tree.congr hs h.typed, h.sized.congr hs h.typed fun r hr => .of_eq (heq r hr),
    ?_, h.bridged.congr hs h.typed, hbridge ▸ h.base_lt, hbridge ▸ h.aligned, hbridge ▸ h.fits⟩
  exact Everywhere.imp h.io hs h.typed fun v found _ hv _ hat ⟨r, hr, hflag⟩ => by
    rw [heq _ hv]
    exact hat ⟨r, hr, (hs.has_eq (by decide) r).symm.trans hflag⟩

/-- A window stays sized if its limit is lowered. -/
lemma Sized.narrow (h : Sized t s depth w) (hs : SameShape s s') (hw : w.Typed)
    (heq : ∀ r ∈ below t s depth w, s' r = s r) (hsize : (s' w.bridge).size = (s w.bridge).size)
    (halign : (s' w.bridge).align = (s w.bridge).align)
    (hlimit : (s' w.bridge).limit ≤ (s w.bridge).limit) : Sized t s' depth w := by
  cases depth with
  | zero => trivial
  | succ depth =>
    refine ⟨fun found hfound => ?_, fun c hc => ?_⟩
    · rw [Window.resources_congr hs hw] at hfound
      have hat := h.1 found hfound
      exact hat.congr hs (fun r hr => .of_eq (heq r (mem_below_of_found hfound hr))) hsize halign
        hlimit
    · rw [Window.childWindows_congr hs hw] at hc
      exact Sized.congr (h.2 c hc) hs (hw.child hc) fun r hr =>
        .of_eq (heq r (mem_below_of_child hc hr))

/-- What `allocate_resources` does to the resources of the regions of `ws`, and what it achieves
for each of the windows `ws`. -/
structure Allocated (t : Topology) (s s' : Store) (depth : ℕ) (ws : List Window) : Prop where
  shape : SameShape s s'
  frame : ∀ r, (∀ w ∈ ws, r ∉ region t s depth w) → s' r = s r
  kept : ∀ r, (∀ w ∈ ws, r ∉ below t s depth w) → Kept (s r) (s' r)
  valid : Valid s'
  placed : ∀ w ∈ ws, Placed t s' depth w

/-- Windows whose regions are apart are filled one by one. -/
private lemma forWindows_allocated {didntFit : List ResourceId}
    (ih : ∀ {s : Store} {w : Window}, Valid s → Ready t s depth w →
      ∃ s', allocateResources t depth w (s, didntFit) = some (s', didntFit) ∧
        Allocated t s s' depth [w])
    (ws : List Window) (hvalid : Valid s) (hready : ∀ w ∈ ws, Ready t s depth w)
    (hdisj : ws.Pairwise fun w w' => (region t s depth w).Disjoint (region t s depth w')) :
    ∃ s', forWindows (allocateResources t depth) (ws.map some) (s, didntFit) =
      some (s', didntFit) ∧ Allocated t s s' depth ws := by
  induction ws generalizing s with
  | nil => exact ⟨s, rfl, .refl s, fun _ _ => rfl, fun _ _ => .of_eq rfl, hvalid, by simp⟩
  | cons w ws ihws =>
    obtain ⟨hapart, hdisj⟩ := List.pairwise_cons.mp hdisj
    have hw := (hready w (by simp)).typed
    have htyped : ∀ v ∈ ws, v.Typed := fun v hv => (hready v (by simp [hv])).typed
    obtain ⟨s₁, heq, h₁⟩ := ih hvalid (hready w (by simp))
    have hregion : ∀ v ∈ ws, region t s₁ depth v = region t s depth v :=
      fun v hv => region_congr h₁.shape (htyped v hv)
    have hbelow : ∀ v ∈ ws, below t s₁ depth v = below t s depth v :=
      fun v hv => below_congr h₁.shape (htyped v hv)
    have hsame : ∀ v ∈ ws, ∀ r ∈ region t s depth v, s₁ r = s r := fun v hv r hr =>
      h₁.frame r (by simpa using fun hrw => hapart v hv hrw hr)
    obtain ⟨s₂, heq₂, h₂⟩ := ihws h₁.valid
      (fun v hv => (hready v (by simp [hv])).congr h₁.shape (hsame v hv))
      (hdisj.imp_of_mem fun {v v'} hv hv' h => by rwa [hregion v hv, hregion v' hv'])
    refine ⟨s₂, by rw [List.map_cons, forWindows, heq, Option.bind_some, heq₂],
      h₁.shape.trans h₂.shape, fun r hr => ?_, fun r hr => ?_, h₂.valid, fun v hv => ?_⟩
    · rw [h₂.frame r fun v hv => by rw [hregion v hv]; exact hr v (by simp [hv])]
      exact h₁.frame r (by simpa using hr w (by simp))
    · exact (h₁.kept r (by simpa using hr w (by simp))).trans
        (h₂.kept r fun v hv => by rw [hbelow v hv]; exact hr v (by simp [hv]))
    · rcases List.mem_cons.mp hv with rfl | hv
      · refine (h₁.placed v (by simp)).congr h₂.shape hw fun r hr => ?_
        rw [region_congr h₁.shape hw] at hr
        refine .of_eq (h₂.frame r fun u hu hru => ?_)
        rw [hregion u hu] at hru
        exact hapart u hu hr hru
      · exact h₂.placed v hv

/-- The loop and the flag of the bridge keep the fields in their range. -/
private lemma FitInv.valid {didntFit : List ResourceId} {x : AllocateState}
    (h : FitInv s bridge didntFit order x) (hvalid : Valid s) {s₁ : Store}
    (hs₁ : s₁ = x.store.modify bridge fun b =>
      { b with flags := b.flags ||| IORESOURCE_ASSIGNED }) : Valid s₁ := by
  have hx : Valid x.store := by
    intro r
    rw [(h.same r).1, (h.same r).2.1, (h.same r).2.2]
    refine ⟨(hvalid r).1, ?_, (hvalid r).2.2⟩
    by_cases hr : r ∈ order
    · rw [h.limit r hr]
      exact (min_le_left _ _).trans_lt (hvalid r).2.1
    · rw [h.frame r hr]
      exact (hvalid r).2.1
  intro r
  by_cases hr : r = bridge
  · rw [hr, hs₁, Store.modify_self]
    exact hx bridge
  · rw [hs₁, Store.modify_of_ne hr]
    exact hx r

/-- The resources on the bus have their places after the loop. -/
private lemma FitInv.placedAt {didntFit : List ResourceId} {x : AllocateState}
    (h : FitInv s w.bridge didntFit (takeOrder s found) x) (hnodup : found.Nodup)
    (hbridge : w.bridge ∉ found) (hpack : packResources s 0 (takeOrder s found) ≤ (s w.bridge).size)
    {s₁ : Store} (hs₁ : s₁ = x.store.modify w.bridge fun b =>
      { b with flags := b.flags ||| IORESOURCE_ASSIGNED }) : PlacedAt s₁ w found := by
  have hshape : SameShape s s₁ :=
    h.shape.trans (hs₁ ▸ SameShape.modify rfl (and_status_assign _))
  have horder : ∀ r ∈ movable s₁ found, r ∈ takeOrder s found := fun r hr => by
    rw [hshape.movable_eq] at hr
    exact (mem_takeOrder hnodup).mpr hr
  have hkeep : ∀ r ∈ movable s₁ found, s₁ r = x.store r := fun r hr => by
    have hne : r ≠ w.bridge := fun heq => hbridge (heq ▸ (mem_movable.mp hr).1)
    rw [hs₁, Store.modify_of_ne hne]
  have hbase : (s₁ w.bridge).base = (s w.bridge).base ∧ (s₁ w.bridge).size = (s w.bridge).size := by
    rw [hs₁, Store.modify_self, h.frame w.bridge fun hb => hbridge (mem_movable.mp (takeOrder_subset hb)).1]
    exact ⟨rfl, rfl⟩
  refine ⟨fun r hr hs => ?_, fun r hr q hq hne hrs hqs => ?_⟩
  · rw [hkeep r hr, (h.same r).1] at hs
    obtain ⟨hassigned, haligned, hlow, hhigh⟩ := h.placed r (horder r hr) hs
    rw [hkeep r hr, hbase.1, hbase.2]
    exact ⟨hassigned, haligned, hlow, hhigh.trans (Nat.add_le_add_left hpack _)⟩
  · rw [hkeep r hr, (h.same r).1] at hrs
    rw [hkeep q hq, (h.same q).1] at hqs
    rw [hkeep r hr, hkeep q hq]
    exact h.apart r (horder r hr) q (horder q hq) hne hrs hqs

/-- The window of a bridge on the bus is ready after the loop. -/
private lemma FitInv.ready {didntFit : List ResourceId} {x : AllocateState}
    (h : FitInv s w.bridge didntFit (takeOrder s found) x) (hready : Ready t s (depth + 1) w)
    (hvalid : Valid s)
    (hfound : w.resources t (depth + 1) s = some found) (hnodup : found.Nodup)
    (hpack : packResources s 0 (takeOrder s found) ≤ (s w.bridge).size)
    (hc : c ∈ w.childWindows t s) {s₁ : Store} (hs₁ : s₁ = x.store.modify w.bridge fun b =>
      { b with flags := b.flags ||| IORESOURCE_ASSIGNED }) : Ready t s₁ depth c := by
  obtain ⟨hnode, hchildren⟩ := hready.tree
  have hw := hready.typed
  have hbridge : w.bridge ∉ found := fun h => hnode.bridge (mem_below_of_found hfound h)
  have hmem := hready.bridged.1 found hfound c hc
  have hne : c.bridge ≠ w.bridge := fun h => hbridge (h ▸ (mem_movable.mp hmem).1)
  have horder : c.bridge ∈ takeOrder s found := (mem_takeOrder hnodup).mpr hmem
  have hkeep : ∀ r, r ≠ w.bridge → s₁ r = x.store r := fun r hr => by rw [hs₁, Store.modify_of_ne hr]
  have hshape : SameShape s s₁ :=
    h.shape.trans (hs₁ ▸ SameShape.modify rfl (and_status_assign _))
  have halign : ∀ r, (s₁ r).align = (s r).align := by
    intro r
    by_cases hr : r = w.bridge
    · rw [hr, hs₁, Store.modify_self]
      exact (h.same w.bridge).2.1
    · rw [hkeep r hr]
      exact (h.same r).2.1
  have hbelow : ∀ r ∈ below t s depth c, s₁ r = s r := by
    intro r hr
    have hrw : r ≠ w.bridge := fun heq =>
      hnode.bridge (heq ▸ mem_below_of_child hc (List.mem_cons_of_mem _ hr))
    rw [hkeep r hrw]
    exact h.frame r fun hro =>
      hnode.apart found hfound c hc r (mem_movable.mp (takeOrder_subset hro)).1 hr
  have hlimit : (s₁ c.bridge).limit = min (s c.bridge).limit (s w.bridge).limit := by
    rw [hkeep _ hne]
    exact h.limit _ horder
  have hsize : (s₁ c.bridge).size = (s c.bridge).size := by
    rw [hkeep _ hne]
    exact (h.same _).1
  have hlim := (hvalid w.bridge).2.1
  have hfits := hready.fits
  have hplaced : (s c.bridge).size ≠ 0 → PlacedIn (s₁ c.bridge) (s w.bridge).base
      ((s w.bridge).base + packResources s 0 (takeOrder s found)) := fun hs => by
    rw [hkeep _ hne]
    exact h.placed _ horder hs
  have hzero : (s c.bridge).size = 0 → (s₁ c.bridge).base = (s₁ c.bridge).limit := fun hs => by
    rw [hkeep _ hne]
    exact h.zero _ horder hs
  refine ⟨hw.child hc, (hchildren c hc).congr hshape (hw.child hc),
    Sized.narrow (hready.sized.2 c hc) hshape (hw.child hc) hbelow hsize (halign _)
      (hlimit ▸ min_le_left _ _),
    IoAligned.congr (hready.io.2 c hc) hshape (hw.child hc) halign,
    Bridged.congr (hready.bridged.2 c hc) hshape (hw.child hc), ?_, fun hs => ?_, ?_⟩
  · by_cases hs : (s c.bridge).size = 0
    · rw [hzero hs, hlimit]
      omega
    · have := (hplaced hs).high
      omega
  · exact (hplaced (hsize ▸ hs)).aligned
  · by_cases hs : (s c.bridge).size = 0
    · rw [hzero hs, hsize, hs]
      omega
    · have hhigh := (hplaced hs).high
      have := ((hready.sized.1 found hfound).fits _ hmem hs).2
      rw [hlimit]
      omega

/-- If the window is placed where it fits, the second pass ends, nothing is found not to fit, and
everything below the window has its place. -/
theorem allocateResources_placed (hvalid : Valid s) (hready : Ready t s depth w)
    (didntFit : List ResourceId) :
    ∃ s', allocateResources t depth w (s, didntFit) = some (s', didntFit) ∧
      Allocated t s s' depth [w] := by
  induction depth generalizing s w with
  | zero => exact hready.tree.elim
  | succ depth ih =>
    obtain ⟨hnode, hchildren⟩ := hready.tree
    obtain ⟨found, hfound⟩ := Option.isSome_iff_exists.mp hnode.found
    have hnodup := hnode.nodup found hfound
    have hbridge : w.bridge ∉ found := fun h => hnode.bridge (mem_below_of_found hfound h)
    have hperm := (takeOrder_spec (s := s) hnodup).2.1
    have hsized := hready.sized.1 found hfound
    have hpack := hsized.size
    have hsizes : ∀ r ∈ takeOrder s found, (s r).size ≠ 0 → (s w.bridge).size ≠ 0 := by
      intro r hr hs
      obtain ⟨p, q, hpq⟩ := List.append_of_mem hr
      have hle : place s (packResources s 0 p) r + (s r).size ≤ packResources s 0 (p ++ r :: q) :=
        start_add_size_le_pack fun _ _ _ => le_place
      rw [hpq] at hpack
      omega
    have hdvd : ∀ r ∈ takeOrder s found, (s r).size ≠ 0 → 2 ^ (s r).align ∣ (s w.bridge).base :=
      fun r hr hs => (Nat.pow_dvd_pow 2 (hsized.fits r (takeOrder_subset hr) hs).1).trans
        (hready.aligned (hsizes r hr hs))
    have hio : ∀ r ∈ takeOrder s found, (s r).size ≠ 0 → (s r).has IORESOURCE_IO = true →
        0x400 ∣ (s w.bridge).base := by
      intro r hr hs hflag
      have h10 := hready.io.1 found hfound ⟨r, (mem_movable.mp (takeOrder_subset hr)).1, hflag⟩
      exact (Nat.pow_dvd_pow 2 h10).trans (hready.aligned (hsizes r hr hs))
    have hinv : FitInv s w.bridge didntFit (takeOrder s found)
        ((takeOrder s found).foldl (fun x r => allocateResource w.bridge r x)
          ⟨s, (s w.bridge).base, didntFit⟩) :=
      FitInv.foldl hvalid (hperm.nodup_iff.mpr (hnodup.filter _))
        (fun h => hbridge (mem_movable.mp (takeOrder_subset h)).1) hready.base_lt hdvd hio
        (fun r hr hs => (hsized.fits r (takeOrder_subset hr) hs).2)
        ((Nat.add_le_add_left hpack _).trans hready.fits)
    have hloop : forLargest t (depth + 1) w AllocateState.store (allocateResource w.bridge)
        ⟨s, (s w.bridge).base, didntFit⟩ = some ((takeOrder s found).foldl
          (fun x r => allocateResource w.bridge r x) ⟨s, (s w.bridge).base, didntFit⟩) :=
      forLargest_eq hready.typed hfound hnodup fun y r _ hy =>
        hy.trans allocateResource_sameOrder
    generalize (takeOrder s found).foldl (fun x r => allocateResource w.bridge r x)
      ⟨s, (s w.bridge).base, didntFit⟩ = x at hloop hinv
    obtain ⟨s₁, hs₁⟩ : ∃ s₁, s₁ = x.store.modify w.bridge fun b => { b with
      flags := b.flags ||| IORESOURCE_ASSIGNED } := ⟨_, rfl⟩
    have hw := hready.typed
    have hshape : SameShape s s₁ :=
      hinv.shape.trans (hs₁ ▸ SameShape.modify rfl (and_status_assign _))
    obtain ⟨s', heq, h'⟩ := forWindows_allocated ih (w.childWindows t s) (hinv.valid hvalid hs₁)
      (fun c hc => hinv.ready hready hvalid hfound hnodup hpack hc hs₁)
      (hnode.disjoint.imp_of_mem fun {c c'} hc hc' hdisj => by
        rwa [region_congr hshape (hw.child hc), region_congr hshape (hw.child hc')])
    have hregion : ∀ c ∈ w.childWindows t s, ∀ r ∉ below t s (depth + 1) w,
        r ∉ region t s₁ depth c := fun c hc r hr hrc =>
      hr (mem_below_of_child hc (region_congr hshape (hw.child hc) ▸ hrc))
    have hkept : ∀ r ∈ w.bridge :: found, Kept (s₁ r) (s' r) := by
      refine fun r hr => h'.kept r fun c hc hrc => ?_
      rw [below_congr hshape (hw.child hc)] at hrc
      rcases List.mem_cons.mp hr with rfl | hr
      · exact hnode.bridge (mem_below_of_child hc (List.mem_cons_of_mem _ hrc))
      · exact hnode.apart found hfound c hc r hr hrc
    refine ⟨s', ?_, hshape.trans h'.shape, fun r hr => ?_, fun r hr => ?_, h'.valid, ?_⟩
    · have hsame : w.children t s₁ = (w.childWindows t s).map some :=
        (Window.children_congr hshape hw).trans hnode.children_eq
      rw [allocateResources, hloop, Option.bind_some, ← hs₁]
      simp only [hsame, hinv.didntFit, heq]
    · have hr' : r ≠ w.bridge ∧ r ∉ below t s (depth + 1) w := by simpa [region] using hr
      rw [h'.frame r fun c hc => hregion c hc r hr'.2, hs₁, Store.modify_of_ne hr'.1]
      exact hinv.frame r fun h => hr'.2 (mem_below_of_found hfound (mem_movable.mp (takeOrder_subset h)).1)
    · have hr' : r ∉ below t s (depth + 1) w := by simpa using hr
      have hx : x.store r = s r := hinv.frame r fun h =>
        hr' (mem_below_of_found hfound (mem_movable.mp (takeOrder_subset h)).1)
      refine Kept.trans ?_ (.of_eq (h'.frame r fun c hc => hregion c hc r hr'))
      by_cases hrb : r = w.bridge
      · rw [hrb, hs₁, Store.modify_self, ← hrb, hx]
        refine ⟨rfl, rfl, rfl, rfl, rfl, fun _ => ?_⟩
        rw [Resource.has, and_assigned]
        decide
      · rw [hs₁, Store.modify_of_ne hrb]
        exact .of_eq hx
    · intro v hv
      obtain rfl := List.mem_singleton.mp hv
      have hshape' := hshape.trans h'.shape
      refine ⟨fun found' hfound' => ?_, fun c hc => ?_⟩
      · rw [Window.resources_congr hshape' hw, hfound] at hfound'
        obtain rfl := Option.some.inj hfound'
        refine (hinv.placedAt hnodup hbridge hpack hs₁).congr h'.shape (fun r hr => ?_)
          (hkept _ List.mem_cons_self)
        exact hkept r (List.mem_cons_of_mem _ hr)
      · rw [Window.childWindows_congr hshape' hw] at hc
        exact h'.placed c hc

end ApuBios.Allocator
