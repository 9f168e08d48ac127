import Mathlib

/-!
# PIRQ routing

Model of `pirq_route_irqs` in `arch/x86/boot/pirq_routing.c`. Every interrupt pin of every slot of
the table has a link, and links are given interrupts on the way, in the order of the table.
-/

namespace ApuBios.PirqRouting

/-- A pin: its link, with a bitmap of the interrupts that it may have. -/
structure Pin where
  link : UInt8
  bitmap : BitVec 16
  deriving DecidableEq, Repr

/-- `struct irq_info`, the pins by `MAX_INTX_ENTRIES`. -/
structure IrqInfo where
  bus : UInt8
  devfn : UInt8
  irq : Fin 4 → Pin

def IrqInfo.dev (s : IrqInfo) : UInt8 := s.devfn >>> 3

/-- `struct irq_routing_table`, with the slots that are in the memory behind its header. -/
structure IrqRoutingTable where
  size : UInt16
  slots : ℕ → IrqInfo

/-- The loop of `pirq_get_next_free_irq`. -/
def nextFreeIrq (pirq : List ℕ) (bitmap : BitVec 16) : List ℕ → ℕ → ℕ
  | [], irq => irq
  | i :: is, irq =>
    if bitmap.getLsbD i then
      if i ∈ pirq then nextFreeIrq pirq bitmap is i else i
    else nextFreeIrq pirq bitmap is irq

def pirqGetNextFreeIrq (pirq : List ℕ) (bitmap : BitVec 16) : ℕ :=
  nextFreeIrq pirq bitmap (List.range' 2 14) 0

/-- A pin that is not skipped; `maxLinks` is `CONFIG_MAX_PIRQ_LINKS`. -/
def Routable (maxLinks : ℕ) (p : Pin) : Prop :=
  p.bitmap ≠ 0 ∧ p.link ≠ 0 ∧ p.link.toNat ≤ maxLinks

instance (maxLinks : ℕ) (p : Pin) : Decidable (Routable maxLinks p) :=
  inferInstanceAs (Decidable (_ ∧ _ ∧ _))

/-- The body of the loop over the pins: the interrupt of the pin, and the links behind it. -/
def routePin (maxLinks : ℕ) (pirq : List ℕ) (p : Pin) : ℕ × List ℕ :=
  if ¬ Routable maxLinks p then (0, pirq)
  else if pirq.getD (p.link.toNat - 1) 0 = 0 then
    let irq := pirqGetNextFreeIrq pirq p.bitmap
    (irq, if irq ≠ 0 then pirq.set (p.link.toNat - 1) irq else pirq)
  else (pirq.getD (p.link.toNat - 1) 0, pirq)

def routePins (maxLinks : ℕ) : List ℕ → List Pin → List ℕ × List ℕ
  | pirq, [] => ([], pirq)
  | pirq, p :: ps =>
    let (irq, pirq) := routePin maxLinks pirq p
    let (irqs, pirq) := routePins maxLinks pirq ps
    (irq :: irqs, pirq)

/-- A call of `pci_assign_irqs`. -/
structure Assign where
  bus : UInt8
  slot : UInt8
  irqs : List ℕ
  deriving DecidableEq, Repr

/-- The loop over the slots. -/
def routeSlots (maxLinks : ℕ) : List ℕ → List IrqInfo → List Assign × List ℕ
  | pirq, [] => ([], pirq)
  | pirq, s :: ss =>
    let (irqs, pirq) := routePins maxLinks pirq (List.ofFn s.irq)
    let (calls, pirq) := routeSlots maxLinks pirq ss
    (⟨s.bus, s.dev, irqs⟩ :: calls, pirq)

/-- `(pirq_tbl->size - 32) / 16`, in `int`; no slot is looked at if it is negative. -/
def IrqRoutingTable.numEntries (t : IrqRoutingTable) : ℕ :=
  (((t.size.toNat : ℤ) - 32).tdiv 16).toNat

def IrqRoutingTable.entries (t : IrqRoutingTable) : List IrqInfo :=
  (List.range t.numEntries).map t.slots

/-- The calls of `pci_assign_irqs`, and what `pirq_assign_irqs` is called with. -/
def pirqRouteIrqs (maxLinks : ℕ) (t : IrqRoutingTable) : List Assign × List ℕ :=
  routeSlots maxLinks (List.replicate maxLinks 0) t.entries

/-! ### Fairness -/

/-- The interrupts that a pin may be given. -/
def Allowed (p : Pin) (irq : ℕ) : Prop :=
  2 ≤ irq ∧ irq ≤ 15 ∧ p.bitmap.getLsbD irq = true

/-- A mention of a link with the interrupt it got, 0 for none, is fair to the mentions before. -/
structure Fair (maxLinks : ℕ) (before : List (Pin × ℕ)) (p : Pin) (irq : ℕ) : Prop where
  skipped : ¬ Routable maxLinks p → irq = 0
  /-- A link that was routed keeps its interrupt. -/
  again : Routable maxLinks p → ∀ x ∈ before, x.1.link = p.link → x.2 ≠ 0 → irq = x.2
  /-- A link that was not gets one that it may have, if there is one. -/
  first : Routable maxLinks p → (∀ x ∈ before, x.1.link = p.link → x.2 = 0) →
    Allowed p irq ∨ irq = 0 ∧ ∀ i, ¬ Allowed p i
  /-- It shares it only if everything it may have is in use. -/
  shared : Routable maxLinks p → (∀ x ∈ before, x.1.link = p.link → x.2 = 0) →
    irq ≠ 0 → (∃ x ∈ before, x.2 = irq) → ∀ i, Allowed p i → ∃ x ∈ before, x.2 = i

/-- All mentions, in the order of the table, with what they got. -/
structure Routed (maxLinks : ℕ) (mentions : List (Pin × ℕ)) : Prop where
  same : ∀ x ∈ mentions, ∀ y ∈ mentions, x.1.link = y.1.link → x.2 ≠ 0 → y.2 ≠ 0 → x.2 = y.2
  fair : ∀ before x after, mentions = before ++ x :: after → Fair maxLinks before x.1 x.2

/-- The pins of the table. -/
def IrqRoutingTable.pins (t : IrqRoutingTable) : List Pin :=
  t.entries.flatMap fun s => List.ofFn s.irq

/-- What the pins got. -/
def answers (calls : List Assign) : List ℕ := calls.flatMap Assign.irqs

/-! ### The next free interrupt -/

section NextFree

variable {pirq : List ℕ} {bitmap : BitVec 16}

/-- The first one that is not in use, or the last one that is in the bitmap. -/
lemma nextFreeIrq_spec (is : List ℕ) (irq : ℕ) :
    (nextFreeIrq pirq bitmap is irq ∈ is ∧
        bitmap.getLsbD (nextFreeIrq pirq bitmap is irq) = true ∨
      nextFreeIrq pirq bitmap is irq = irq ∧ ∀ i ∈ is, bitmap.getLsbD i = false) ∧
    (nextFreeIrq pirq bitmap is irq ∈ pirq →
      ∀ i ∈ is, bitmap.getLsbD i = true → i ∈ pirq) := by
  induction is generalizing irq with
  | nil => simp [nextFreeIrq]
  | cons i is ih =>
    rw [nextFreeIrq]
    by_cases hallowed : bitmap.getLsbD i = true
    · rw [if_pos hallowed]
      by_cases hused : i ∈ pirq
      · rw [if_pos hused]
        obtain ⟨hwhere, hall⟩ := ih i
        constructor
        · rcases hwhere with ⟨hmem, hbit⟩ | ⟨hlast, -⟩
          · exact .inl ⟨List.mem_cons_of_mem _ hmem, hbit⟩
          · rw [hlast]
            exact .inl ⟨List.mem_cons_self, hallowed⟩
        · intro hmem j hj hbit
          rcases List.mem_cons.mp hj with rfl | hj
          · exact hused
          · exact hall hmem j hj hbit
      · rw [if_neg hused]
        exact ⟨.inl ⟨List.mem_cons_self, hallowed⟩, fun hmem => absurd hmem hused⟩
    · rw [if_neg hallowed]
      obtain ⟨hwhere, hall⟩ := ih irq
      constructor
      · rcases hwhere with ⟨hmem, hbit⟩ | ⟨hlast, hnone⟩
        · exact .inl ⟨List.mem_cons_of_mem _ hmem, hbit⟩
        · refine .inr ⟨hlast, ?_⟩
          intro j hj
          rcases List.mem_cons.mp hj with rfl | hj
          · simpa using hallowed
          · exact hnone j hj
      · intro hmem j hj hbit
        rcases List.mem_cons.mp hj with rfl | hj
        · exact absurd hbit hallowed
        · exact hall hmem j hj hbit

lemma mem_range_allowed {p : Pin} {i : ℕ} :
    Allowed p i ↔ i ∈ List.range' 2 14 ∧ p.bitmap.getLsbD i = true := by
  rw [Allowed, List.mem_range'_1]
  constructor
  · rintro ⟨h2, h15, hbit⟩
    exact ⟨⟨h2, by omega⟩, hbit⟩
  · rintro ⟨⟨h2, h16⟩, hbit⟩
    exact ⟨h2, by omega, hbit⟩

lemma pirqGetNextFreeIrq_allowed (pirq : List ℕ) (p : Pin) :
    Allowed p (pirqGetNextFreeIrq pirq p.bitmap) ∨
      pirqGetNextFreeIrq pirq p.bitmap = 0 ∧ ∀ i, ¬ Allowed p i := by
  rcases (nextFreeIrq_spec (List.range' 2 14) 0).1 with hsome | ⟨hzero, hnone⟩
  · exact .inl (mem_range_allowed.mpr hsome)
  · refine .inr ⟨hzero, ?_⟩
    intro i hi
    obtain ⟨hmem, hbit⟩ := mem_range_allowed.mp hi
    rw [hnone i hmem] at hbit
    exact absurd hbit (by decide)

lemma pirqGetNextFreeIrq_shared {p : Pin} (h : pirqGetNextFreeIrq pirq p.bitmap ∈ pirq)
    {i : ℕ} (hi : Allowed p i) : i ∈ pirq := by
  obtain ⟨hmem, hbit⟩ := mem_range_allowed.mp hi
  exact (nextFreeIrq_spec (List.range' 2 14) 0).2 h i hmem hbit

end NextFree

/-! ### The links -/

/-- The links that were routed have their interrupts in `pirq`. -/
structure Holds (maxLinks : ℕ) (pirq : List ℕ) (before : List (Pin × ℕ)) : Prop where
  length : pirq.length = maxLinks
  routed : ∀ l irq, irq ≠ 0 →
    (pirq[l]? = some irq ↔ ∃ x ∈ before, x.1.link.toNat = l + 1 ∧ x.2 = irq)
  routable : ∀ x ∈ before, x.2 ≠ 0 → Routable maxLinks x.1

section Links

variable {maxLinks : ℕ} {pirq : List ℕ} {before : List (Pin × ℕ)} {p : Pin}

lemma holds_nil (maxLinks : ℕ) : Holds maxLinks (List.replicate maxLinks 0) [] where
  length := List.length_replicate
  routed := by
    intro l irq hirq
    constructor
    · intro h
      obtain ⟨hl, hzero⟩ := List.getElem?_eq_some_iff.mp h
      rw [List.getElem_replicate] at hzero
      exact absurd hzero.symm hirq
    · rintro ⟨x, hx, -⟩
      exact absurd hx (List.not_mem_nil)
  routable := fun _ hx => absurd hx List.not_mem_nil

lemma Routable.index (h : Routable maxLinks p) :
    p.link.toNat = (p.link.toNat - 1) + 1 ∧ p.link.toNat - 1 < maxLinks := by
  obtain ⟨-, hlink, hle⟩ := h
  have hne : p.link.toNat ≠ 0 := by
    intro h0
    exact hlink (UInt8.toNat_inj.mp h0)
  omega

/-- The interrupts in use. -/
lemma Holds.mem (h : Holds maxLinks pirq before) {irq : ℕ} (hirq : irq ≠ 0) :
    irq ∈ pirq ↔ ∃ x ∈ before, x.2 = irq := by
  rw [List.mem_iff_getElem?]
  constructor
  · rintro ⟨l, hl⟩
    obtain ⟨x, hx, -, hxirq⟩ := (h.routed l irq hirq).mp hl
    exact ⟨x, hx, hxirq⟩
  · rintro ⟨x, hx, rfl⟩
    exact ⟨_, (h.routed _ _ hirq).mpr ⟨x, hx, (h.routable x hx hirq).index.1, rfl⟩⟩

lemma Holds.getElem (h : Holds maxLinks pirq before) (hp : Routable maxLinks p) :
    pirq[p.link.toNat - 1]? = some (pirq.getD (p.link.toNat - 1) 0) := by
  have hlt : p.link.toNat - 1 < pirq.length := h.length ▸ hp.index.2
  rw [List.getD_eq_getElem _ _ hlt, List.getElem?_eq_getElem hlt]

/-- What the links say about a link that is mentioned. -/
lemma Holds.link (h : Holds maxLinks pirq before) (hp : Routable maxLinks p) {irq : ℕ}
    (hirq : irq ≠ 0) :
    pirq.getD (p.link.toNat - 1) 0 = irq ↔ ∃ x ∈ before, x.1.link = p.link ∧ x.2 = irq := by
  have hrouted := h.routed (p.link.toNat - 1) irq hirq
  rw [h.getElem hp, Option.some_inj, ← hp.index.1] at hrouted
  rw [hrouted]
  simp only [UInt8.toNat_inj]

/-- A mention that changes nothing in the links. -/
lemma Holds.append_same (h : Holds maxLinks pirq before) {irq : ℕ}
    (hirq : irq ≠ 0 → Routable maxLinks p ∧ ∃ x ∈ before, x.1.link = p.link ∧ x.2 = irq) :
    Holds maxLinks pirq (before ++ [(p, irq)]) where
  length := h.length
  routed := by
    intro l i hi
    rw [h.routed l i hi]
    constructor
    · rintro ⟨x, hx, hxl⟩
      exact ⟨x, List.mem_append_left _ hx, hxl⟩
    · rintro ⟨x, hx, hlink, hxi⟩
      rcases List.mem_append.mp hx with hx | hx
      · exact ⟨x, hx, hlink, hxi⟩
      · obtain rfl : x = (p, irq) := List.mem_singleton.mp hx
        obtain rfl : irq = i := hxi
        obtain ⟨-, y, hy, hylink, hyirq⟩ := hirq hi
        exact ⟨y, hy, hylink ▸ hlink, hyirq⟩
  routable := by
    intro x hx hne
    rcases List.mem_append.mp hx with hx | hx
    · exact h.routable x hx hne
    · obtain rfl : x = (p, irq) := List.mem_singleton.mp hx
      exact (hirq hne).1

/-- A link that is routed for the first time. -/
lemma Holds.append_set (h : Holds maxLinks pirq before) (hp : Routable maxLinks p) (irq : ℕ)
    (hnew : pirq.getD (p.link.toNat - 1) 0 = 0) :
    Holds maxLinks (pirq.set (p.link.toNat - 1) irq) (before ++ [(p, irq)]) where
  length := by rw [List.length_set, h.length]
  routed := by
    intro l i hi
    have hindex := hp.index
    by_cases hl : p.link.toNat - 1 = l
    · rw [← hl, List.getElem?_set_self (h.length ▸ hindex.2), Option.some_inj]
      constructor
      · rintro rfl
        exact ⟨(p, irq), by simp, hindex.1, rfl⟩
      · rintro ⟨x, hx, hlink, rfl⟩
        rcases List.mem_append.mp hx with hx | hx
        · -- the link had no interrupt before
          have := (h.routed (p.link.toNat - 1) x.2 hi).mpr ⟨x, hx, hlink, rfl⟩
          rw [h.getElem hp, hnew, Option.some_inj] at this
          exact absurd this.symm hi
        · obtain rfl : x = (p, irq) := List.mem_singleton.mp hx
          rfl
    · rw [List.getElem?_set_ne hl, h.routed l i hi]
      constructor
      · rintro ⟨x, hx, hxl⟩
        exact ⟨x, List.mem_append_left _ hx, hxl⟩
      · rintro ⟨x, hx, hlink, hxi⟩
        rcases List.mem_append.mp hx with hx | hx
        · exact ⟨x, hx, hlink, hxi⟩
        · obtain rfl : x = (p, irq) := List.mem_singleton.mp hx
          dsimp only at hlink
          omega
  routable := by
    intro x hx hne
    rcases List.mem_append.mp hx with hx | hx
    · exact h.routable x hx hne
    · obtain rfl : x = (p, irq) := List.mem_singleton.mp hx
      exact hp

/-- A mention that finds its link routed. -/
lemma Holds.fair_again (h : Holds maxLinks pirq before) (hp : Routable maxLinks p)
    (hold : pirq.getD (p.link.toNat - 1) 0 ≠ 0) :
    Fair maxLinks before p (pirq.getD (p.link.toNat - 1) 0) := by
  obtain ⟨x, hx, hlink, hxirq⟩ := (h.link hp hold).mp rfl
  refine ⟨fun hnot => absurd hp hnot, ?_, ?_, ?_⟩
  · intro _ y hy hylink hyne
    exact (h.link hp hyne).mpr ⟨y, hy, hylink, rfl⟩
  · intro _ hnone
    exact absurd (hxirq.symm.trans (hnone x hx hlink)) hold
  · intro _ hnone
    exact absurd (hxirq.symm.trans (hnone x hx hlink)) hold

/-- A mention that does not. -/
lemma Holds.fair_first (h : Holds maxLinks pirq before) (hp : Routable maxLinks p)
    (hnew : pirq.getD (p.link.toNat - 1) 0 = 0) :
    Fair maxLinks before p (pirqGetNextFreeIrq pirq p.bitmap) := by
  refine ⟨fun hnot => absurd hp hnot, ?_, ?_, ?_⟩
  · intro _ x hx hlink hne
    exact absurd (hnew.symm.trans ((h.link hp hne).mpr ⟨x, hx, hlink, rfl⟩)).symm hne
  · intro _ _
    exact pirqGetNextFreeIrq_allowed pirq p
  · intro _ _ hne hused i hi
    have hi0 : i ≠ 0 := by have := hi.1; omega
    rw [← h.mem hne] at hused
    exact (h.mem hi0).mp (pirqGetNextFreeIrq_shared hused hi)

/-- One pin. -/
lemma Holds.pin (h : Holds maxLinks pirq before) (p : Pin) :
    Fair maxLinks before p (routePin maxLinks pirq p).1 ∧
      Holds maxLinks (routePin maxLinks pirq p).2
        (before ++ [(p, (routePin maxLinks pirq p).1)]) := by
  unfold routePin
  by_cases hp : Routable maxLinks p
  · rw [if_neg (not_not.mpr hp)]
    by_cases hnew : pirq.getD (p.link.toNat - 1) 0 = 0
    · rw [if_pos hnew]
      refine ⟨h.fair_first hp hnew, ?_⟩
      dsimp only
      by_cases hirq : pirqGetNextFreeIrq pirq p.bitmap = 0
      · rw [if_neg (not_not.mpr hirq)]
        exact h.append_same fun hne => absurd hirq hne
      · rw [if_pos hirq]
        exact h.append_set hp _ hnew
    · rw [if_neg hnew]
      exact ⟨h.fair_again hp hnew, h.append_same fun hne => ⟨hp, (h.link hp hne).mp rfl⟩⟩
  · rw [if_pos hp]
    refine ⟨⟨fun _ => rfl, ?_, ?_, ?_⟩, h.append_same fun hne => absurd rfl hne⟩
    all_goals exact fun hroutable => absurd hroutable hp

end Links

/-! ### The table -/

section Table

variable {maxLinks : ℕ}

lemma routePins_length (pirq : List ℕ) (ps : List Pin) :
    (routePins maxLinks pirq ps).1.length = ps.length := by
  induction ps generalizing pirq with
  | nil => rfl
  | cons p ps ih => simp [routePins, ih]

lemma routePins_append (pirq : List ℕ) (ps qs : List Pin) :
    routePins maxLinks pirq (ps ++ qs) =
      ((routePins maxLinks pirq ps).1 ++
          (routePins maxLinks (routePins maxLinks pirq ps).2 qs).1,
        (routePins maxLinks (routePins maxLinks pirq ps).2 qs).2) := by
  induction ps generalizing pirq with
  | nil => simp [routePins]
  | cons p ps ih => simp [routePins, ih]

/-- The loop over the slots goes over all pins. -/
lemma routeSlots_eq (pirq : List ℕ) (ss : List IrqInfo) :
    answers (routeSlots maxLinks pirq ss).1 =
        (routePins maxLinks pirq (ss.flatMap fun s => List.ofFn s.irq)).1 ∧
      (routeSlots maxLinks pirq ss).2 =
        (routePins maxLinks pirq (ss.flatMap fun s => List.ofFn s.irq)).2 := by
  induction ss generalizing pirq with
  | nil => exact ⟨rfl, rfl⟩
  | cons s ss ih =>
    rw [List.flatMap_cons, routePins_append, routeSlots]
    obtain ⟨hanswers, hlinks⟩ := ih (routePins maxLinks pirq (List.ofFn s.irq)).2
    exact ⟨by rw [answers, List.flatMap_cons, ← hanswers, answers], hlinks⟩

/-- All pins that are still to come. -/
lemma Holds.pins {pirq : List ℕ} {before : List (Pin × ℕ)} (h : Holds maxLinks pirq before)
    (ps : List Pin) :
    Holds maxLinks (routePins maxLinks pirq ps).2
        (before ++ ps.zip (routePins maxLinks pirq ps).1) ∧
      ∀ pre x post, ps.zip (routePins maxLinks pirq ps).1 = pre ++ x :: post →
        Fair maxLinks (before ++ pre) x.1 x.2 := by
  induction ps generalizing pirq before with
  | nil =>
    refine ⟨by simpa [routePins] using h, ?_⟩
    intro pre x post heq
    simp at heq
  | cons p ps ih =>
    obtain ⟨hfair, hnext⟩ := h.pin p
    obtain ⟨hlinks, hrest⟩ := ih hnext
    rw [routePins]
    refine ⟨by simpa using hlinks, ?_⟩
    intro pre x post heq
    rw [List.zip_cons_cons] at heq
    cases pre with
    | nil =>
      obtain ⟨rfl, -⟩ := List.cons.inj heq
      simpa using hfair
    | cons y pre =>
      obtain ⟨rfl, htail⟩ := List.cons.inj heq
      simpa using hrest pre x post htail

/-- The calls are for the slots of the table. -/
lemma routeSlots_calls (pirq : List ℕ) (ss : List IrqInfo) :
    (routeSlots maxLinks pirq ss).1.map (fun call => (call.bus, call.slot, call.irqs.length)) =
      ss.map fun s => (s.bus, s.dev, 4) := by
  induction ss generalizing pirq with
  | nil => rfl
  | cons s ss ih => simp [routeSlots, routePins_length, ih]

lemma Holds.same {pirq : List ℕ} {mentions : List (Pin × ℕ)} (h : Holds maxLinks pirq mentions)
    {x y : Pin × ℕ} (hx : x ∈ mentions) (hy : y ∈ mentions) (hlink : x.1.link = y.1.link)
    (hxirq : x.2 ≠ 0) (hyirq : y.2 ≠ 0) : x.2 = y.2 := by
  have hp := h.routable y hy hyirq
  rw [← (h.link hp hxirq).mpr ⟨x, hx, hlink, rfl⟩, (h.link hp hyirq).mpr ⟨y, hy, rfl, rfl⟩]

/-- Every pin is answered, in the order of the table and by calls for its slots, and the answers
agree and are fair; at the end the links have the interrupts that were given to them. -/
theorem pirqRouteIrqs_routed (maxLinks : ℕ) (t : IrqRoutingTable) :
    (pirqRouteIrqs maxLinks t).1.map (fun call => (call.bus, call.slot, call.irqs.length)) =
        t.entries.map (fun s => (s.bus, s.dev, 4)) ∧
      Routed maxLinks (t.pins.zip (answers (pirqRouteIrqs maxLinks t).1)) ∧
      Holds maxLinks (pirqRouteIrqs maxLinks t).2
        (t.pins.zip (answers (pirqRouteIrqs maxLinks t).1)) := by
  obtain ⟨hanswers, hlinks⟩ := @routeSlots_eq maxLinks (List.replicate maxLinks 0) t.entries
  obtain ⟨hholds, hfair⟩ := (holds_nil maxLinks).pins t.pins
  rw [List.nil_append] at hholds
  refine ⟨routeSlots_calls _ _, ?_, ?_⟩
  · rw [pirqRouteIrqs, hanswers]
    exact ⟨fun x hx y hy => hholds.same hx hy, hfair⟩
  · rw [pirqRouteIrqs, hanswers, hlinks]
    exact hholds

end Table

/-- A slot of which two pins have one link, the second without a bitmap. -/
def twiceMentioned : IrqRoutingTable where
  size := 48
  slots := fun _ => ⟨0, 8, ![⟨1, 0x20⟩, ⟨1, 0⟩, ⟨0, 0⟩, ⟨0, 0⟩]⟩

/-- Two mentions of a link do not always get the same. -/
theorem not_sameIrq_twiceMentioned :
    ¬ ∀ x ∈ twiceMentioned.pins.zip (answers (pirqRouteIrqs 4 twiceMentioned).1),
      ∀ y ∈ twiceMentioned.pins.zip (answers (pirqRouteIrqs 4 twiceMentioned).1),
        x.1.link = y.1.link → x.2 = y.2 := by
  intro h
  exact absurd (h (⟨1, 0x20⟩, 5) (by decide) (⟨1, 0⟩, 0) (by decide) rfl) (by decide)

end ApuBios.PirqRouting
