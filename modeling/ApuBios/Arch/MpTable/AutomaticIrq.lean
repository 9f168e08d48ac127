import ApuBios.Device.Pci.Swizzle

/-!
# Automatic interrupt entries

The loop of `write_smp_table` over the devices. For a device without interrupt entries of its own it
walks up to an ancestor that has one, at an index that it computes from the device and from the
last device on its way only. The standard swizzle adds the slots of all bridges that are crossed.
-/

namespace ApuBios.Pci

open Collect MpTable

/-- The members of `struct pci_irq_info` that are used. -/
structure PciIrqInfo where
  ioapicIrqPin : ℕ
  ioapicDstId : ℕ
  ioapicFlags : ℕ

/-- The devices as the loop looks at them. -/
structure IrqTopology extends Topology where
  allDevices : List DeviceId
  enabled : DeviceId → Bool
  /-- whether `path.type` is `DEVICE_PATH_DOMAIN` -/
  isDomain : DeviceId → Bool
  pciIrqInfo : DeviceId → ℕ → PciIrqInfo

def mp_INT : ℕ := 0

variable (t : IrqTopology)

/-- The entry for a pin of a device. -/
def irqEntry (dev : DeviceId) (pin : ℕ) (info : PciIrqInfo) : BaseCall :=
  .intsrc mp_INT info.ioapicFlags (t.secondary (t.bus dev)) (((t.devfn dev &&& 0xf8) >>> 1) ||| pin)
    info.ioapicDstId info.ioapicIrqPin

/-- The index that is looked at in the parent of `oldparent`. -/
def parentpin (dev oldparent : DeviceId) : ℕ :=
  ((t.devfn oldparent >>> 3) + (t.devfn oldparent &&& 7) + (t.devfn dev &&& 7) +
    (t.devfn dev >>> 3)) % 4

/-- The walk up: the ancestor and the index at which there is an entry, or nothing if it ends at a
domain without one. There is no value if it goes on for more rounds. -/
def automaticLoop (dev : DeviceId) : (rounds : ℕ) → (oldparent : DeviceId) →
    Option (Option (DeviceId × ℕ))
  | 0, _ => none
  | rounds + 1, oldparent =>
    match t.dev (t.bus oldparent) with
    | none => some none
    | some parent =>
      if (t.pciIrqInfo parent (parentpin t dev oldparent)).ioapicDstId ≠ 0 then
        some (some (parent, parentpin t dev oldparent))
      else if t.isDomain parent then
        some none
      else
        automaticLoop dev rounds parent

/-- The pins of a device with a fixed entry. -/
def fixedPins (dev : DeviceId) : List ℕ :=
  (List.range 4).filter fun pin => (t.pciIrqInfo dev pin).ioapicDstId ≠ 0

/-- The entries that are written for a device. -/
def deviceEntries (rounds : ℕ) (dev : DeviceId) : Option (List BaseCall) :=
  if !t.isPci dev || !t.enabled dev then
    some []
  else if fixedPins t dev ≠ [] then
    some ((fixedPins t dev).map fun pin => irqEntry t dev pin (t.pciIrqInfo dev pin))
  else
    (automaticLoop t dev rounds dev).map fun found =>
      found.toList.map fun x => irqEntry t dev ((t.devfn dev &&& 7) % 4) (t.pciIrqInfo x.1 x.2)

/-- The entries that are written in the loop over all devices. -/
def smpTableEntries (rounds : ℕ) : Option (List BaseCall) :=
  collect (t.allDevices.map (deviceEntries t rounds))

/-! ### The standard swizzle -/

/-- The bridges that are crossed from a device up to an ancestor, the nearest one first. -/
inductive Above : DeviceId → List DeviceId → DeviceId → Prop
  | parent {d a} : t.dev (t.bus d) = some a → Above d [] a
  | bridge {d b bridges a} : t.dev (t.bus d) = some b → t.isPci b = true → t.isDomain b = false →
      Above b bridges a → Above d (b :: bridges) a

/-- All four entries of the device are filled. -/
def Filled (a : DeviceId) : Prop := ∀ pin < 4, (t.pciIrqInfo a pin).ioapicDstId ≠ 0

/-- The index by the standard rule, for the pin that is used for the device. -/
def standardPin (d : DeviceId) (bridges : List DeviceId) : ℕ :=
  ((t.devfn d &&& 7) % 4 + slots t.toTopology (d :: bridges)) % 4

/-- The automatic entry of the device uses the entry `pin` of the ancestor. -/
structure Uses (rounds : ℕ) (d a : DeviceId) (pin : ℕ) : Prop where
  found : automaticLoop t d rounds d = some (some (a, pin))
  entries : deviceEntries t rounds d =
    some [irqEntry t d ((t.devfn d &&& 7) % 4) (t.pciIrqInfo a pin)]

/-- No bridge on the way has an entry where the walk looks for one. -/
def Blank (d : DeviceId) : (oldparent : DeviceId) → List DeviceId → Prop
  | _, [] => True
  | oldparent, b :: bridges =>
    (t.pciIrqInfo b (parentpin t d oldparent)).ioapicDstId = 0 ∧ Blank d b bridges

instance (d oldparent : DeviceId) (bridges : List DeviceId) :
    Decidable (Blank t d oldparent bridges) := by
  induction bridges generalizing oldparent with
  | nil => exact .isTrue trivial
  | cons b bridges ih =>
    have := ih b
    exact inferInstanceAs (Decidable (_ ∧ _))

/-- Directly below the ancestor the slot and the function of the device cancel out; behind bridges the
function of the last one stands for the slots of the others. -/
def Balanced (d : DeviceId) (bridges : List DeviceId) : Prop :=
  match bridges.getLast? with
  | none => ((t.devfn d >>> 3) + (t.devfn d &&& 7)) % 4 = 0
  | some last => (t.devfn last &&& 7) % 4 = slots t.toTopology bridges.dropLast % 4

instance (d : DeviceId) (bridges : List DeviceId) : Decidable (Balanced t d bridges) := by
  unfold Balanced
  split <;> exact inferInstance

variable {t} {d a oldparent : DeviceId} {bridges : List DeviceId} {rounds pin : ℕ}

lemma parentpin_lt : parentpin t d oldparent < 4 := Nat.mod_lt _ (by decide)

/-- The last device on the way up. -/
def lastBelow (oldparent : DeviceId) (bridges : List DeviceId) : DeviceId :=
  bridges.getLast?.getD oldparent

@[simp] lemma lastBelow_cons (b : DeviceId) : lastBelow oldparent (b :: bridges) = lastBelow b bridges := by
  rw [lastBelow, lastBelow, List.getLast?_cons, Option.getD_some]

/-- The walk ends at the ancestor, or at a bridge on the way that has an entry there. -/
lemma automaticLoop_cases (h : Above t oldparent bridges a) (hfilled : Filled t a)
    (hrounds : bridges.length < rounds) :
    (Blank t d oldparent bridges ∧
      automaticLoop t d rounds oldparent = some (some (a, parentpin t d (lastBelow oldparent bridges)))) ∨
    (¬Blank t d oldparent bridges ∧
      ∃ b ∈ bridges, ∃ pin, automaticLoop t d rounds oldparent = some (some (b, pin))) := by
  induction h generalizing rounds with
  | @parent oldparent a hparent =>
    obtain ⟨rounds, rfl⟩ := Nat.exists_eq_succ_of_ne_zero hrounds.ne'
    left
    refine ⟨trivial, ?_⟩
    rw [automaticLoop, hparent]
    exact if_pos (hfilled _ parentpin_lt)
  | @bridge oldparent b bridges a hparent _ hdomain _ ih =>
    obtain ⟨rounds, rfl⟩ := Nat.exists_eq_succ_of_ne_zero (Nat.ne_zero_of_lt hrounds)
    rw [automaticLoop, hparent, Blank, lastBelow_cons]
    by_cases hblank : (t.pciIrqInfo b (parentpin t d oldparent)).ioapicDstId = 0
    · simp only [hblank, hdomain, ne_eq, not_true_eq_false, if_false, Bool.false_eq_true, true_and]
      rcases ih hfilled (by simpa using hrounds) with hfound | ⟨hnot, c, hc, hfound⟩
      · exact Or.inl hfound
      · exact Or.inr ⟨hnot, c, List.mem_cons_of_mem b hc, hfound⟩
    · right
      refine ⟨fun h => hblank h.1, b, List.mem_cons_self, parentpin t d oldparent, ?_⟩
      exact if_pos hblank

/-- The index at the ancestor is that of the standard rule exactly if the two are balanced. -/
lemma parentpin_eq_iff :
    parentpin t d (lastBelow d bridges) = standardPin t d bridges ↔ Balanced t d bridges := by
  rw [Balanced, parentpin, standardPin, slots_cons]
  rcases List.eq_nil_or_concat bridges with rfl | ⟨others, last, rfl⟩
  · have hlast : lastBelow d [] = d := rfl
    have hnone : slots t.toTopology [] = 0 := rfl
    rw [hlast, hnone, List.getLast?_nil]
    simp only
    omega
  · have hlast : lastBelow d (others.concat last) = last := by simp [lastBelow]
    have hslots : slots t.toTopology (others.concat last) =
        slots t.toTopology others + t.devfn last >>> 3 := by simp [slots]
    rw [hlast, hslots, List.concat_eq_append, List.getLast?_concat, List.dropLast_concat]
    simp only
    omega

lemma deviceEntries_of_found (hpci : t.isPci d = true) (henabled : t.enabled d = true)
    (hfixed : fixedPins t d = []) (h : automaticLoop t d rounds d = some (some (a, pin))) :
    deviceEntries t rounds d =
      some [irqEntry t d ((t.devfn d &&& 7) % 4) (t.pciIrqInfo a pin)] := by
  simp [deviceEntries, hpci, henabled, hfixed, h]

/-- The entry that is used for a device is in the table. -/
lemma Uses.mem {l : List BaseCall} (h : Uses t rounds d a pin) (hd : d ∈ t.allDevices)
    (hl : smpTableEntries t rounds = some l) :
    irqEntry t d ((t.devfn d &&& 7) % 4) (t.pciIrqInfo a pin) ∈ l :=
  (mem_collect_map hl).mpr ⟨d, hd, _, h.entries, List.mem_singleton_self _⟩

/-- Below the nearest ancestor with four entries, the automatic entry uses that of the standard rule
exactly if the walk passes the bridges in between and the index is balanced. -/
theorem uses_standardPin_iff (hpci : t.isPci d = true) (henabled : t.enabled d = true)
    (hfixed : fixedPins t d = []) (habove : Above t d bridges a) (hfilled : Filled t a)
    (hnearest : ∀ b ∈ bridges, ¬Filled t b) (hrounds : bridges.length < rounds) :
    Uses t rounds d a (standardPin t d bridges) ↔ Blank t d d bridges ∧ Balanced t d bridges := by
  constructor
  · intro h
    rcases automaticLoop_cases habove hfilled hrounds with ⟨hblank, hfound⟩ | ⟨-, b, hb, pin, hfound⟩
    · have hpin := h.found
      rw [hfound, Option.some_inj, Option.some_inj] at hpin
      exact ⟨hblank, parentpin_eq_iff.mp (Prod.ext_iff.mp hpin).2⟩
    · -- an entry of a bridge in between is not one of the ancestor
      have hpin := h.found
      rw [hfound, Option.some_inj, Option.some_inj] at hpin
      obtain rfl : b = a := (Prod.ext_iff.mp hpin).1
      exact absurd hfilled (hnearest b hb)
  · rintro ⟨hblank, hbalanced⟩
    rcases automaticLoop_cases habove hfilled hrounds with ⟨-, hfound⟩ | ⟨hnot, -⟩
    · rw [parentpin_eq_iff.mpr hbalanced] at hfound
      exact ⟨hfound, deviceEntries_of_found hpci henabled hfixed hfound⟩
    · exact absurd hblank hnot

/-- The swizzle that `swizzle_irq_pins` computes is the standard one. -/
theorem swizzleIrqPins_standard (habove : Above t d bridges a)
    (hpin : t.interruptPin d = (t.devfn d &&& 7) % 4 + 1) (hroot : t.secondary (t.bus a) = 0)
    (hsec : ∀ b ∈ bridges, 0 < t.secondary (t.bus b)) (hrounds : bridges.length < rounds) :
    swizzleIrqPins t.toTopology rounds d = some (((standardPin t d bridges + 1 : ℕ) : ℤ), some a) := by
  have hloop : ∀ {rounds d bridges a}, Above t d bridges a → t.secondary (t.bus a) = 0 →
      (∀ b ∈ bridges, 0 < t.secondary (t.bus b)) → bridges.length < rounds → ∀ pin : ℕ,
      swizzleLoop t.toTopology rounds d (t.dev (t.bus d)) pin =
        some ((((pin + slots t.toTopology (d :: bridges)) % 4 : ℕ) : ℤ), some a) := by
    intro rounds d bridges a h hroot hsec hrounds pin
    induction h generalizing rounds pin with
    | parent hparent =>
      obtain ⟨rounds, rfl⟩ := Nat.exists_eq_succ_of_ne_zero hrounds.ne'
      rw [hparent, swizzleLoop, if_neg (by omega), tmod_eq]
      simp [slots]
    | @bridge d b bridges a hparent _ _ _ ih =>
      obtain ⟨rounds, rfl⟩ := Nat.exists_eq_succ_of_ne_zero (Nat.ne_zero_of_lt hrounds)
      rw [List.forall_mem_cons] at hsec
      rw [hparent, swizzleLoop, if_pos hsec.1, tmod_eq,
        ih hroot hsec.2 (by simpa using hrounds), slots_cons (d := d)]
      congr 3
      omega
  have hpos : ((t.interruptPin d : ℤ) - 1) = (((t.devfn d &&& 7) % 4 : ℕ) : ℤ) := by
    rw [hpin]
    push_cast
    omega
  rw [swizzleIrqPins, hpos, hloop habove hroot hsec hrounds, standardPin]
  simp

/-- A domain with four entries, a device on its bus, and another device on the bus of that one. -/
def domainTopology (devfn₁ devfn₂ : ℕ) : IrqTopology where
  bus d := d
  dev b := if b = 0 then none else some (b - 1)
  secondary b := b - 1
  linkList d := if d < 2 then [d + 1] else []
  children b := if b < 3 then [b] else []
  isPci d := d ≠ 0
  devfn d := if d = 1 then devfn₁ else devfn₂
  classCode d := if d = 1 then 0x060400 else 0x020000
  interruptPin _ := 1
  allDevices := [0, 1, 2]
  enabled _ := true
  isDomain d := d = 0
  pciIrqInfo d pin := if d = 0 then ⟨16 + pin, 4, 15⟩ else ⟨0, 0, 0⟩

lemma domainTopology_filled (devfn₁ devfn₂ : ℕ) : Filled (domainTopology devfn₁ devfn₂) 0 := by
  intro pin _
  simp [domainTopology]

lemma domainTopology_not_filled (devfn₁ devfn₂ : ℕ) : ¬Filled (domainTopology devfn₁ devfn₂) 1 := by
  intro h
  exact h 0 (by decide) rfl

/-- A device in slot 5 behind a bridge in slot 4. -/
theorem uses_standardPin_iff_bridge : Uses (domainTopology 0x20 0x29) 2 2 0
    (standardPin (domainTopology 0x20 0x29) 2 [1]) :=
  (uses_standardPin_iff rfl rfl (by decide) (.bridge rfl rfl rfl (.parent rfl))
    (domainTopology_filled _ _) (by simp [domainTopology_not_filled]) (by decide)).mpr (by decide)

/-- A device in slot 1 directly below the domain: the slot is counted twice. -/
theorem not_uses_standardPin :
    (domainTopology 0x08 0).isPci 1 = true ∧ (domainTopology 0x08 0).enabled 1 = true ∧
      fixedPins (domainTopology 0x08 0) 1 = [] ∧ Above (domainTopology 0x08 0) 1 [] 0 ∧
      Filled (domainTopology 0x08 0) 0 ∧
      ∀ rounds, ¬Uses (domainTopology 0x08 0) rounds 1 0 (standardPin (domainTopology 0x08 0) 1 []) := by
  refine ⟨rfl, rfl, by decide, .parent rfl, domainTopology_filled _ _, ?_⟩
  intro rounds h
  have hfound := h.found
  cases rounds with
  | zero => cases hfound
  | succ rounds =>
    have hloop : automaticLoop (domainTopology 0x08 0) 1 (rounds + 1) 1 = some (some (0, 2)) := rfl
    rw [hloop] at hfound
    exact absurd hfound (by decide)

end ApuBios.Pci
