import ApuBios.Device.Allocator.Allocate

/-!
# The passes agree

A window that is placed where it fits has room for everything that the first pass has found below
it.
-/

namespace ApuBios.Allocator

section Decidable

variable (t : Topology) (s : Store) (depth : ℕ) (w : Window)

instance : Decidable w.Typed := inferInstanceAs (Decidable (_ = _))

instance (l l' : List ResourceId) : Decidable (l.Disjoint l') :=
  decidable_of_iff (∀ a ∈ l, a ∉ l') Iff.rfl

instance {P : Window → List ResourceId → Prop} [∀ v found, Decidable (P v found)] :
    (depth : ℕ) → (w : Window) → Decidable (Everywhere t s P depth w)
  | 0, _ => .isTrue trivial
  | depth + 1, w =>
    have : ∀ c, Decidable (Everywhere t s P depth c) := fun c => instDecidableEverywhere depth c
    inferInstanceAs (Decidable ((∀ found ∈ w.resources t (depth + 1) s, P w found) ∧ _))

instance : Decidable (IsNode t s depth w) :=
  decidable_of_iff ((∀ c ∈ w.children t s, c.isSome) ∧ (w.resources t (depth + 1) s).isSome ∧
    (∀ found ∈ w.resources t (depth + 1) s, found.Nodup) ∧ w.bridge ∉ below t s (depth + 1) w ∧
    (∀ found ∈ w.resources t (depth + 1) s, ∀ c ∈ w.childWindows t s,
      ∀ r ∈ found, r ∉ below t s depth c) ∧
    (w.childWindows t s).Pairwise fun c c' => (region t s depth c).Disjoint (region t s depth c'))
    ⟨fun ⟨links, found, nodup, bridge, apart, disjoint⟩ =>
      ⟨fun h => by simpa using links none h, found, nodup, bridge, apart, disjoint⟩,
     fun h => ⟨fun c hc => by cases c with | none => exact absurd hc h.links | some => rfl,
      h.found, h.nodup, h.bridge, h.apart, h.disjoint⟩⟩

instance : (depth : ℕ) → (w : Window) → Decidable (IsTree t s depth w)
  | 0, _ => .isFalse id
  | depth + 1, w =>
    have : ∀ c, Decidable (IsTree t s depth c) := fun c => instDecidableIsTree depth c
    inferInstanceAs (Decidable (IsNode t s depth w ∧ _))

instance : Decidable (BaseZero t s depth w) :=
  inferInstanceAs (Decidable (Everywhere t s (fun v _ => (s v.bridge).base = 0) depth w))

instance (found : List ResourceId) : Decidable (PlacedAt s w found) :=
  decidable_of_iff ((∀ r ∈ movable s found, (s r).size ≠ 0 →
      (s r).has IORESOURCE_ASSIGNED = true ∧ 2 ^ (s r).align ∣ (s r).base ∧
      (s w.bridge).base ≤ (s r).base ∧
        (s r).base + (s r).size ≤ (s w.bridge).base + (s w.bridge).size) ∧
    ∀ r ∈ movable s found, ∀ q ∈ movable s found, r ≠ q → (s r).size ≠ 0 → (s q).size ≠ 0 →
      (s r).base + (s r).size ≤ (s q).base ∨ (s q).base + (s q).size ≤ (s r).base)
    ⟨fun ⟨placed, apart⟩ => ⟨placed, apart⟩, fun h => ⟨h.placed, h.apart⟩⟩

instance (found : List ResourceId) : Decidable (NoWrapAt s w found) :=
  inferInstanceAs (Decidable (_ < _))

end Decidable

/-- Windows with I/O resources have a granularity of at least 12, and no less alignment. -/
abbrev IoGranular (t : Topology) (s : Store) (depth : ℕ) (w : Window) : Prop :=
  Everywhere t s (fun v found => (∃ r ∈ found, (s r).has IORESOURCE_IO = true) →
    12 ≤ (s v.bridge).gran ∧ (s v.bridge).gran ≤ (s v.bridge).align) depth w

/-- The bridge of a window is given a place. -/
def Store.placeBridge (s : Store) (w : Window) (base limit : ℕ) : Store :=
  s.modify w.bridge fun b => { b with base := base, limit := limit }

/-- Both passes end, and if the window that the first one sizes is placed where it fits, the second
one finds that everything fits, and places everything below inside the window above it. -/
def PassesAgree (t : Topology) (s : Store) (depth : ℕ) (w : Window) : Prop :=
  ∃ s₁, computeResources t depth w s = some s₁ ∧ ∀ base < 2 ^ 64, ∀ limit,
    2 ^ (s₁ w.bridge).align ∣ base → base + (s₁ w.bridge).size ≤ limit + 1 →
    limit ≤ (s₁ w.bridge).limit →
    ∃ s₂, allocateResources t depth w (s₁.placeBridge w base limit, []) = some (s₂, []) ∧
      (s₂ w.bridge).base = base ∧ (s₂ w.bridge).size = (s₁ w.bridge).size ∧ Placed t s₂ depth w

variable {t : Topology} {s s₁ : Store} {w : Window} {depth : ℕ}

lemma IsTree.bridge_notMem (h : IsTree t s depth w) : w.bridge ∉ below t s depth w := by
  cases depth with
  | zero => exact h.elim
  | succ depth => exact h.1.bridge

/-- The window is ready for the second pass wherever it fits. -/
lemma Computed.ready (h : Computed t s s₁ depth [w]) (hw : w.Typed) (htree : IsTree t s depth w)
    (hio : IoGranular t s depth w) (hbridged : Bridged t s depth w) (hwrap : NoWrap t s₁ depth w)
    {base limit : ℕ} (hbase : base < 2 ^ 64) (halign : 2 ^ (s₁ w.bridge).align ∣ base)
    (hfits : base + (s₁ w.bridge).size ≤ limit + 1) (hlimit : limit ≤ (s₁ w.bridge).limit) :
    Ready t (s₁.placeBridge w base limit) depth w := by
  have hbridge : s₁.placeBridge w base limit w.bridge =
      { s₁ w.bridge with base := base, limit := limit } := Store.modify_self
  have hother : ∀ r, r ≠ w.bridge → s₁.placeBridge w base limit r = s₁ r :=
    fun r hr => Store.modify_of_ne hr
  have hsame : ∀ r, (s₁.placeBridge w base limit r).align = (s₁ r).align := by
    intro r
    by_cases hr : r = w.bridge
    · rw [hr, hbridge]
    · rw [hother r hr]
  have hplace : SameShape s₁ (s₁.placeBridge w base limit) := SameShape.modify rfl rfl
  have hshape : SameShape s (s₁.placeBridge w base limit) := h.shape.trans hplace
  have hbelow : ∀ r ∈ below t s₁ depth w, s₁.placeBridge w base limit r = s₁ r := fun r hr =>
    hother r fun heq => htree.bridge_notMem (by rwa [below_congr h.shape hw, heq] at hr)
  refine ⟨hw, htree.congr hshape hw, ?_, ?_, hbridged.congr hshape hw, ?_, fun _ => ?_, ?_⟩
  · exact (h.sized w (by simp) hwrap).narrow hplace hw hbelow (by rw [hbridge])
      (by rw [hbridge]) (by rwa [hbridge])
  · refine Everywhere.imp hio hshape hw fun v found _ _ _ hat ⟨r, hr, hflag⟩ => ?_
    obtain ⟨hgran, hle⟩ := hat ⟨r, hr, (hshape.has_eq (by decide) r).symm.trans hflag⟩
    have hgrow := (h.grow v.bridge).1
    rw [hsame]
    omega
  · rwa [hbridge]
  · rwa [hbridge]
  · rwa [hbridge]

/-- The passes agree on every tree whose bridges are all on their buses, unless a size wraps. -/
theorem computeResources_allocateResources (hw : w.Typed) (hvalid : Valid s)
    (htree : IsTree t s depth w) (hzero : BaseZero t s depth w) (hio : IoGranular t s depth w)
    (hbridged : Bridged t s depth w)
    (hwrap : ∀ s₁ ∈ computeResources t depth w s, NoWrap t s₁ depth w) :
    PassesAgree t s depth w := by
  obtain ⟨s₁, heq, h⟩ := computeResources_computed htree hw hvalid hzero
  refine ⟨s₁, heq, fun base hbase limit halign hfits hlimit => ?_⟩
  have hbridge : s₁.placeBridge w base limit w.bridge =
      { s₁ w.bridge with base := base, limit := limit } := Store.modify_self
  have hready := h.ready hw htree hio hbridged (hwrap s₁ heq) hbase halign hfits hlimit
  have hvalid' : Valid (s₁.placeBridge w base limit) := by
    intro r
    by_cases hr : r = w.bridge
    · obtain ⟨hsize, hlim, hrest⟩ := h.valid w.bridge
      rw [hr, hbridge]
      exact ⟨hsize, hlimit.trans_lt hlim, hrest⟩
    · rw [Store.placeBridge, Store.modify_of_ne hr]
      exact h.valid r
  obtain ⟨s₂, heq₂, h₂⟩ := allocateResources_placed hvalid' hready []
  have hkept := h₂.kept w.bridge fun v hv => by
    obtain rfl := List.mem_singleton.mp hv
    exact (htree.congr (h.shape.trans (SameShape.modify rfl rfl)) hw).bridge_notMem
  refine ⟨s₂, heq₂, ?_, ?_, h₂.placed w (by simp)⟩
  · rw [hkept.base, hbridge]
  · rw [hkept.size, hbridge]

/-! ### Trees on which the passes agree or not -/

/-- A bus with the devices 1 to 3; device 3 is a bridge to a bus with device 4. -/
def bridgeTopology (enabled : DeviceId → Bool) : Topology where
  children bus := if bus = 0 then [1, 2, 3] else [4]
  enabled := enabled
  isDomain _ := false
  resourceList dev := if dev = 4 then [4, 5] else [dev]
  linkList dev := if dev = 3 then [1] else []
  linkNum _ := 0

def freshResource (type : BitVec 32) (size limit align gran : ℕ) : Resource :=
  ⟨0, size, limit, type, 0, align, gran⟩

/-- The windows 0, to the bus, and 3, of the bridge, and a resource for every device. The limit is
that of the resources below the bridge. -/
def memoryStore (size₁ size₂ size₄ limit : ℕ) : Store
  | 0 => freshResource (MEM_TYPE ||| IORESOURCE_BRIDGE) 0 (2 ^ 64 - 1) 12 12
  | 1 => freshResource MEM_TYPE size₁ (2 ^ 64 - 1) 12 12
  | 2 => freshResource MEM_TYPE size₂ (2 ^ 64 - 1) 12 12
  | 3 => freshResource (MEM_TYPE ||| IORESOURCE_BRIDGE) 0 (2 ^ 64 - 1) 20 20
  | 4 => freshResource MEM_TYPE size₄ limit 12 12
  | 5 => freshResource MEM_TYPE 0x1000 limit 12 12
  | _ => freshResource 0 0 0 0 0

/-- An I/O window that is less aligned than its granularity. -/
def ioStore : Store
  | 0 => freshResource (IO_TYPE ||| IORESOURCE_BRIDGE) 0 0xffff 0 12
  | 1 => freshResource IO_TYPE 0x1000 0xffff 6 6
  | _ => freshResource 0 0 0 0 0

def memoryWindow : Window := ⟨0, 0, MEM_MASK, MEM_TYPE⟩
def ioWindow : Window := ⟨0, 0, IO_MASK, IO_TYPE⟩

lemma memoryStore_valid {size₁ size₂ size₄ limit : ℕ} (h₁ : size₁ < 2 ^ 64) (h₂ : size₂ < 2 ^ 64)
    (h₄ : size₄ < 2 ^ 64) (hlimit : limit < 2 ^ 64) :
    Valid (memoryStore size₁ size₂ size₄ limit) := by
  rintro (_ | _ | _ | _ | _ | _ | r) <;> simp only [memoryStore, freshResource] <;> omega

/-- A condition on the store after the first pass, evaluated. -/
lemma forall_mem_of_map {P : Store → Prop} [DecidablePred P] {x : Option Store}
    (h : x.map (fun s => decide (P s)) = some true) : ∀ s ∈ x, P s := by
  rintro s hs
  rw [hs] at h
  simpa using h

theorem computeResources_allocateResources_bridge :
    PassesAgree (bridgeTopology fun _ => true) (memoryStore 0x1000 0x3000 0x2000 0xffffffff) 3
      memoryWindow :=
  computeResources_allocateResources (by decide) (memoryStore_valid (by decide) (by decide)
    (by decide) (by decide)) (by decide +kernel) (by decide +kernel) (by decide +kernel)
    (by decide +kernel) (forall_mem_of_map (by decide +kernel))

/-- Whether the second pass finds that everything fits, and places it, if the window is placed at
`base`. -/
def placesAt (t : Topology) (s : Store) (depth : ℕ) (w : Window) (base limit : ℕ) : Bool :=
  ((computeResources t depth w s).bind fun s₁ =>
    (allocateResources t depth w (s₁.placeBridge w base limit, [])).map fun x =>
      decide (x.2 = [] ∧ Placed t x.1 depth w)) == some true

/-- The window is given a place where it fits. -/
def fitsAt (t : Topology) (s : Store) (depth : ℕ) (w : Window) (base limit : ℕ) : Bool :=
  ((computeResources t depth w s).map fun s₁ =>
    decide (2 ^ (s₁ w.bridge).align ∣ base ∧ base + (s₁ w.bridge).size ≤ limit + 1 ∧
      limit ≤ (s₁ w.bridge).limit)) == some true

lemma PassesAgree.placesAt (h : PassesAgree t s depth w) {base limit : ℕ} (hbase : base < 2 ^ 64)
    (hfits : fitsAt t s depth w base limit = true) : placesAt t s depth w base limit = true := by
  obtain ⟨s₁, heq, h⟩ := h
  simp only [fitsAt, heq, Option.map_some, beq_iff_eq, Option.some.injEq, decide_eq_true_eq] at hfits
  obtain ⟨s₂, heq₂, -, -, hplaced⟩ := h base hbase limit hfits.1 hfits.2.1 hfits.2.2
  simp [Allocator.placesAt, heq, heq₂, hplaced]

/-- No hypothesis can be left out: sizes that wrap, a bridge that is disabled, and an I/O window
that is less aligned than its granularity. -/
theorem not_passesAgree :
    (¬ ∀ (t : Topology) (s : Store) (depth : ℕ) (w : Window), w.Typed → Valid s →
      IsTree t s depth w → BaseZero t s depth w → IoGranular t s depth w → Bridged t s depth w →
      PassesAgree t s depth w) ∧
    (¬ ∀ (t : Topology) (s : Store) (depth : ℕ) (w : Window), w.Typed → Valid s →
      IsTree t s depth w → BaseZero t s depth w → IoGranular t s depth w →
      (∀ s₁ ∈ computeResources t depth w s, NoWrap t s₁ depth w) → PassesAgree t s depth w) ∧
    ¬ ∀ (t : Topology) (s : Store) (depth : ℕ) (w : Window), w.Typed → Valid s →
      IsTree t s depth w → BaseZero t s depth w →
      Everywhere t s (fun v found => (∃ r ∈ found, (s r).has IORESOURCE_IO = true) →
        12 ≤ (s v.bridge).gran) depth w → Bridged t s depth w →
      (∀ s₁ ∈ computeResources t depth w s, NoWrap t s₁ depth w) → PassesAgree t s depth w := by
  refine ⟨fun h => ?_, fun h => ?_, fun h => ?_⟩
  · have hplaces := (h (bridgeTopology fun _ => true)
      (memoryStore (2 ^ 63) (2 ^ 63) 0x1000 0xffffffff) 3 memoryWindow (by decide)
      (memoryStore_valid (by decide) (by decide) (by decide) (by decide)) (by decide +kernel)
      (by decide +kernel) (by decide +kernel) (by decide +kernel)).placesAt
      (show 0 < 2 ^ 64 by decide) (show fitsAt _ _ _ _ 0 0xffffffff = true by decide +kernel)
    exact absurd hplaces (by decide +kernel)
  · have hplaces := (h (bridgeTopology (· != 3)) (memoryStore 0x1000 0x1000 0x2000 0x1fff) 3
      memoryWindow (by decide)
      (memoryStore_valid (by decide) (by decide) (by decide) (by decide)) (by decide +kernel)
      (by decide +kernel) (by decide +kernel) (forall_mem_of_map (by decide +kernel))).placesAt
      (show 0 < 2 ^ 64 by decide) (show fitsAt _ _ _ _ 0 0xffffffff = true by decide +kernel)
    exact absurd hplaces (by decide +kernel)
  · have hvalid : Valid ioStore := by
      rintro (_ | _ | r) <;> simp only [ioStore, freshResource] <;> omega
    have hplaces := (h (bridgeTopology fun _ => true) ioStore 3 ioWindow (by decide) hvalid
      (by decide +kernel) (by decide +kernel) (by decide +kernel) (by decide +kernel)
      (forall_mem_of_map (by decide +kernel))).placesAt
      (show 0x140 < 2 ^ 64 by decide) (show fitsAt _ _ _ _ 0x140 0xffff = true by decide +kernel)
    exact absurd hplaces (by decide +kernel)

end ApuBios.Allocator
