import ApuBios.Arch.MpTable.Basic
import ApuBios.Library.Collect

/-!
# Interrupt pins behind bridges

`swizzle_irq_pins` walks up from a device to the bridge on the root bus and adds the slots on its
way; `smp_write_intsrc_pci_bridge` walks down from the bridge and turns the four inputs by the slot
at each level. They agree on the input that a pin of the device is connected to.
-/

namespace ApuBios.Pci

open Collect MpTable

abbrev BusId := ℕ
abbrev DeviceId := ℕ

/-- The part of the device tree that the two functions look at. -/
structure Topology where
  /-- `bus` of a device -/
  bus : DeviceId → BusId
  /-- `dev` of a bus -/
  dev : BusId → Option DeviceId
  secondary : BusId → ℕ
  linkList : DeviceId → List BusId
  children : BusId → List DeviceId
  /-- whether `path.type` is `DEVICE_PATH_PCI` -/
  isPci : DeviceId → Bool
  devfn : DeviceId → ℕ
  /-- `class` of a device -/
  classCode : DeviceId → ℕ
  /-- the byte at `PCI_INTERRUPT_PIN` -/
  interruptPin : DeviceId → ℕ

def PCI_SLOT (devfn : ℕ) : ℕ := (devfn >>> 3) &&& 0x1f

def PCI_BASE_CLASS_BRIDGE : ℕ := 0x06
def PCI_CLASS_BRIDGE_PCI : ℕ := 0x0604
def PCI_CLASS_BRIDGE_PCMCIA : ℕ := 0x0605
def PCI_CLASS_BRIDGE_CARDBUS : ℕ := 0x0607

variable (t : Topology)

/-! ### Walking up -/

/-- The loop of `swizzle_irq_pins`, with no value if it goes on for more rounds. The bridge is
nothing if `*parent_bdg` is not set. -/
def swizzleLoop : (rounds : ℕ) → (child : DeviceId) → (parent : Option DeviceId) →
    (swizzledPin : ℤ) → Option (ℤ × Option DeviceId)
  | 0, _, _, _ => none
  | _ + 1, _, none, swizzledPin => some (swizzledPin, none)
  | rounds + 1, child, some parent, swizzledPin =>
    let swizzledPin := (PCI_SLOT (t.devfn child) + swizzledPin).tmod 4
    if t.secondary (t.bus parent) > 0 then
      swizzleLoop rounds parent (t.dev (t.bus parent)) swizzledPin
    else
      some (swizzledPin, some parent)

def swizzleIrqPins (rounds : ℕ) (dev : DeviceId) : Option (ℤ × Option DeviceId) :=
  (swizzleLoop t rounds dev (t.dev (t.bus dev)) (t.interruptPin dev - 1)).map fun x =>
    (x.1 + 1, x.2)

/-! ### Walking down -/

/-- The other arguments of `smp_write_intsrc_pci_bridge`. -/
structure Args where
  irqtype : ℕ
  irqflag : ℕ
  dstapic : ℕ

/-- `child->class >> 8` is one of the bridges that are followed. -/
def isPciBridge (dev : DeviceId) : Bool :=
  t.classCode dev >>> 8 == PCI_CLASS_BRIDGE_PCI || t.classCode dev >>> 8 == PCI_CLASS_BRIDGE_PCMCIA ||
    t.classCode dev >>> 8 == PCI_CLASS_BRIDGE_CARDBUS

/-- `dstirq_x` for the slot of a device. -/
def roundPins (dstirq : ℕ → ℕ) (slot : ℕ) (i : ℕ) : ℕ := dstirq ((i + slot) % 4)

/-- The entry for a pin of a device, with the pins counted from 0. -/
def pinEntry (args : Args) (link : BusId) (dev : DeviceId) (i dstirq : ℕ) : BaseCall :=
  .intsrc args.irqtype args.irqflag (t.secondary link) (((t.devfn dev >>> 3) <<< 2) ||| i)
    args.dstapic dstirq

/-- The entries that `smp_write_intsrc_pci_bridge` writes, each with the device it is for; no value
if bridges are nested more than `depth` levels deep. -/
def smpWriteIntsrcPciBridge (args : Args) : (depth : ℕ) → (dev : DeviceId) → (dstirq : ℕ → ℕ) →
    Option (List (DeviceId × BaseCall))
  | 0, _, _ => none
  | depth + 1, dev, dstirq =>
    collect ((t.linkList dev).map fun link => collect ((t.children link).map fun child =>
      if !t.isPci child then
        some []
      else
        let slot := t.devfn child >>> 3
        let dstirqX := roundPins dstirq slot
        if t.classCode child >>> 16 ≠ PCI_BASE_CLASS_BRIDGE then
          some ((List.range 4).map fun i => (child, pinEntry t args link child i (dstirqX i)))
        else if isPciBridge t child then
          smpWriteIntsrcPciBridge args depth child dstirqX
        else
          some []))

/-! ### The way from the bridge to a device -/

/-- The pointers up and down belong together, and no device is below itself. -/
structure IsTree (t : Topology) (rank : BusId → ℕ) (height : ℕ) : Prop where
  bus : ∀ {b d}, d ∈ t.children b → t.bus d = b
  dev : ∀ {d b}, b ∈ t.linkList d → t.dev b = some d
  rank_link : ∀ {b d b'}, d ∈ t.children b → b' ∈ t.linkList d → rank b' = rank b + 1
  rank_lt : ∀ {b d}, d ∈ t.children b → rank b < height

/-- The device is behind the bridge `root`, and `bridges` are crossed on the way up to it. -/
inductive Behind (t : Topology) (root : DeviceId) : DeviceId → List DeviceId → Prop
  | link {b d} : b ∈ t.linkList root → d ∈ t.children b → Behind t root d []
  | bridge {c bridges b d} : Behind t root c bridges → t.isPci c = true → isPciBridge t c = true →
      b ∈ t.linkList c → d ∈ t.children b → Behind t root d (c :: bridges)

/-- The sum of the slots of devices. -/
def slots (l : List DeviceId) : ℕ := (l.map fun d => t.devfn d >>> 3).sum

/-- The inputs at the pins of the devices behind the bridges that are crossed. -/
def routed (dstirq : ℕ → ℕ) (bridges : List DeviceId) (i : ℕ) : ℕ := dstirq ((i + slots t bridges) % 4)

variable {t} {rank : BusId → ℕ} {height depth : ℕ} {root d c : DeviceId} {b : BusId}
  {bridges bridges' : List DeviceId} {args : Args} {dstirq : ℕ → ℕ}

lemma slot_mod (devfn : ℕ) : PCI_SLOT devfn % 4 = (devfn >>> 3) % 4 := by
  have hmask : PCI_SLOT devfn = (devfn >>> 3) % 2 ^ 5 := Nat.and_two_pow_sub_one_eq_mod _ 5
  omega

/-- One round with a pin that is counted from 0. -/
lemma tmod_eq (devfn pin : ℕ) :
    ((PCI_SLOT devfn : ℤ) + pin).tmod 4 = (((pin + devfn >>> 3) % 4 : ℕ) : ℤ) := by
  have hmod := slot_mod devfn
  have hnat : ((PCI_SLOT devfn : ℤ) + pin).tmod 4 = ((PCI_SLOT devfn + pin) % 4 : ℕ) := by
    rw [← Nat.cast_add, Int.tmod_eq_emod_of_nonneg (Int.natCast_nonneg _)]
    rfl
  rw [hnat]
  congr 1
  omega

lemma slots_cons : slots t (d :: bridges) = t.devfn d >>> 3 + slots t bridges := by
  simp [slots]

/-- The walk up adds the slots of the device and of the bridges that are crossed. -/
lemma swizzleLoop_eq (h : IsTree t rank height) (hbehind : Behind t root d bridges)
    (hroot : t.secondary (t.bus root) = 0) (hsec : ∀ c ∈ bridges, 0 < t.secondary (t.bus c))
    {rounds : ℕ} (hrounds : bridges.length < rounds) (pin : ℕ) :
    swizzleLoop t rounds d (t.dev (t.bus d)) pin =
      some ((((pin + slots t (d :: bridges)) % 4 : ℕ) : ℤ), some root) := by
  induction hbehind generalizing rounds pin with
  | link hb hd =>
    obtain ⟨rounds, rfl⟩ := Nat.exists_eq_succ_of_ne_zero hrounds.ne'
    rw [h.bus hd, h.dev hb, swizzleLoop, if_neg (by omega), tmod_eq]
    simp [slots]
  | @bridge c bridges b d _ _ _ hb hd ih =>
    obtain ⟨rounds, rfl⟩ := Nat.exists_eq_succ_of_ne_zero (Nat.ne_zero_of_lt hrounds)
    rw [List.forall_mem_cons] at hsec
    rw [h.bus hd, h.dev hb, swizzleLoop, if_pos hsec.1, tmod_eq, ih hsec.2 (by simpa using hrounds),
      slots_cons (d := d)]
    congr 3
    omega

/-! ### What the walk down writes -/

/-- The entries that are to be written for a call: those of the devices on the links, and those of
the calls for the bridges there. -/
inductive Writes (t : Topology) (args : Args) : DeviceId → (ℕ → ℕ) → DeviceId × BaseCall → Prop
  | device {dev dstirq link child i} : link ∈ t.linkList dev → child ∈ t.children link →
      t.isPci child = true → t.classCode child >>> 16 ≠ PCI_BASE_CLASS_BRIDGE → i < 4 →
      Writes t args dev dstirq (child,
        pinEntry t args link child i (roundPins dstirq (t.devfn child >>> 3) i))
  | bridge {dev dstirq link child x} : link ∈ t.linkList dev → child ∈ t.children link →
      t.isPci child = true → isPciBridge t child = true →
      Writes t args child (roundPins dstirq (t.devfn child >>> 3)) x → Writes t args dev dstirq x

lemma isBridge_of_isPciBridge (h : isPciBridge t c = true) :
    t.classCode c >>> 16 = PCI_BASE_CLASS_BRIDGE := by
  rw [isPciBridge, Bool.or_eq_true, Bool.or_eq_true] at h
  simp only [beq_iff_eq, PCI_CLASS_BRIDGE_PCI, PCI_CLASS_BRIDGE_PCMCIA,
    PCI_CLASS_BRIDGE_CARDBUS] at h
  rw [show 16 = 8 + 8 from rfl, Nat.shiftRight_add]
  rcases h with (h | h) | h <;> rw [h] <;> rfl

lemma mem_smpWriteIntsrcPciBridge {l : List (DeviceId × BaseCall)}
    (h : smpWriteIntsrcPciBridge t args depth d dstirq = some l) {x : DeviceId × BaseCall} :
    x ∈ l ↔ Writes t args d dstirq x := by
  induction depth generalizing d dstirq l with
  | zero => cases h
  | succ depth ih =>
    rw [smpWriteIntsrcPciBridge] at h
    rw [mem_collect_map h]
    constructor
    · rintro ⟨link, hlink, part, hpart, hx⟩
      obtain ⟨child, hchild, part', hpart', hx⟩ := (mem_collect_map hpart).mp hx
      split_ifs at hpart' with hpci hclass hbridge
      · obtain rfl := Option.some.inj hpart'
        cases hx
      · obtain rfl := Option.some.inj hpart'
        obtain ⟨i, hi, rfl⟩ := List.mem_map.mp hx
        exact .device hlink hchild (by simpa using hpci) hclass (List.mem_range.mp hi)
      · exact .bridge hlink hchild (by simpa using hpci) hbridge ((ih hpart').mp hx)
      · obtain rfl := Option.some.inj hpart'
        cases hx
    · intro hwrites
      cases hwrites with
      | @device _ _ link child i hlink hchild hpci hclass hi =>
        obtain ⟨part, hpart⟩ := exists_of_collect_map h hlink
        obtain ⟨part', hpart'⟩ := exists_of_collect_map hpart hchild
        refine ⟨link, hlink, part, hpart, (mem_collect_map hpart).mpr
          ⟨child, hchild, part', hpart', ?_⟩⟩
        rw [hpci, Bool.not_true, if_neg Bool.false_ne_true, if_pos hclass] at hpart'
        obtain rfl := Option.some.inj hpart'
        exact List.mem_map.mpr ⟨i, List.mem_range.mpr hi, rfl⟩
      | @bridge _ _ link child _ hlink hchild hpci hbridge hrest =>
        obtain ⟨part, hpart⟩ := exists_of_collect_map h hlink
        obtain ⟨part', hpart'⟩ := exists_of_collect_map hpart hchild
        refine ⟨link, hlink, part, hpart, (mem_collect_map hpart).mpr
          ⟨child, hchild, part', hpart', ?_⟩⟩
        rw [hpci, Bool.not_true, if_neg Bool.false_ne_true,
          if_neg (not_not.mpr (isBridge_of_isPciBridge hbridge)), if_pos hbridge] at hpart'
        exact (ih hpart').mpr hrest

lemma smpWriteIntsrcPciBridge_isSome (h : IsTree t rank height)
    (hd : ∀ b ∈ t.linkList d, height ≤ rank b + depth) :
    ∃ l, smpWriteIntsrcPciBridge t args (depth + 1) d dstirq = some l := by
  induction depth generalizing d dstirq with
  | zero =>
    rw [smpWriteIntsrcPciBridge]
    apply collect_map_isSome
    intro link hlink
    have hnone : t.children link = [] := by
      apply List.eq_nil_iff_forall_not_mem.mpr
      intro child hchild
      have hlt := h.rank_lt hchild
      have hle := hd link hlink
      omega
    rw [hnone]
    rfl
  | succ depth ih =>
    rw [smpWriteIntsrcPciBridge]
    apply collect_map_isSome
    intro link hlink
    apply Option.isSome_iff_exists.mpr
    apply collect_map_isSome
    intro child hchild
    split_ifs
    · rfl
    · rfl
    · apply Option.isSome_iff_exists.mpr
      apply ih
      intro b hb
      have hrank := h.rank_link hchild hb
      have hle := hd link hlink
      omega
    · rfl

/-! ### The ways of a device -/

lemma Behind.rank_eq (h : IsTree t rank height) (hroot : root ∈ t.children (t.bus root))
    (hbehind : Behind t root d bridges) :
    rank (t.bus d) = rank (t.bus root) + bridges.length + 1 := by
  induction hbehind with
  | link hb hd => rw [h.bus hd, h.rank_link hroot hb, List.length_nil]
  | @bridge c bridges b d hc _ _ hb hd ih =>
    have hc' : c ∈ t.children (t.bus c) := by
      cases hc with
      | link _ hc => rwa [h.bus hc]
      | bridge _ _ _ _ hc => rwa [h.bus hc]
    rw [h.bus hd, h.rank_link hc' hb, ih, List.length_cons, Nat.add_assoc _ bridges.length]

/-- There is one way from the bridge to the devices on a bus. -/
lemma Behind.unique {d' : DeviceId} (h : IsTree t rank height)
    (hroot : root ∈ t.children (t.bus root)) (hbehind : Behind t root d bridges)
    (hbehind' : Behind t root d' bridges') (hbus : t.bus d = t.bus d') : bridges = bridges' := by
  have hlength : bridges.length = bridges'.length := by
    have hrank := hbehind.rank_eq h hroot
    have hrank' := hbehind'.rank_eq h hroot
    rw [hbus] at hrank
    omega
  induction hbehind generalizing bridges' d' with
  | link hb hd => exact (List.length_eq_zero_iff.mp hlength.symm).symm
  | @bridge c bridges b d hc _ _ hb hd ih =>
    cases hbehind' with
    | link => simp at hlength
    | @bridge c' bridges' b' _ hc' _ _ hb' hd' =>
      obtain rfl : b = b' := (h.bus hd).symm.trans (hbus.trans (h.bus hd'))
      obtain rfl : c = c' := Option.some.inj ((h.dev hb).symm.trans (h.dev hb'))
      rw [ih hc' rfl (by simpa using hlength)]

/-- The inputs after one more bridge. -/
lemma roundPins_roundPins {dstirq' : ℕ → ℕ} {k : ℕ}
    (h : ∀ slot i, roundPins dstirq' slot i = dstirq ((i + slot + k) % 4)) (slot slot' i : ℕ) :
    roundPins (roundPins dstirq' slot) slot' i = dstirq ((i + slot' + (slot + k)) % 4) := by
  rw [roundPins, h]
  congr 1
  omega

/-- A call that the walk down makes, behind bridges. -/
def Called (t : Topology) (root c : DeviceId) (bridges : List DeviceId) : Prop :=
  (c = root ∧ bridges = []) ∨ ∃ above, bridges = c :: above ∧ Behind t root c above ∧
    t.isPci c = true ∧ isPciBridge t c = true

lemma Called.behind (hc : Called t root c bridges) (hb : b ∈ t.linkList c) (hd : d ∈ t.children b) :
    Behind t root d bridges := by
  rcases hc with ⟨rfl, rfl⟩ | ⟨above, rfl, hbehind, hpci, hbridge⟩
  · exact .link hb hd
  · exact .bridge hbehind hpci hbridge hb hd

/-- Each entry that is written names, for a pin of the device it is for, the input that the slots on
the way lead to. -/
lemma Writes.exists_pin (h : IsTree t rank height) {dstirq' : ℕ → ℕ} {x : DeviceId × BaseCall}
    (hwrites : Writes t args c dstirq' x) (hc : Called t root c bridges)
    (hdst : ∀ slot i, roundPins dstirq' slot i = dstirq ((i + slot + slots t bridges) % 4)) :
    ∃ bridges, Behind t root x.1 bridges ∧ ∃ i < 4,
      x.2 = pinEntry t args (t.bus x.1) x.1 i (dstirq ((i + slots t (x.1 :: bridges)) % 4)) := by
  induction hwrites generalizing bridges with
  | @device dev _ link child i hlink hchild hpci hclass hi =>
    refine ⟨bridges, hc.behind hlink hchild, i, hi, ?_⟩
    rw [hdst, h.bus hchild, slots_cons, Nat.add_assoc]
  | @bridge dev dstirq'' link child x hlink hchild hpci hbridge _ ih =>
    refine ih (Or.inr ⟨bridges, rfl, hc.behind hlink hchild, hpci, hbridge⟩) fun slot i => ?_
    rw [roundPins_roundPins hdst, slots_cons]

/-- What is to be written for a bridge on the way is written. -/
lemma Behind.writes (hbehind : Behind t root c bridges) (hpci : t.isPci c = true)
    (hbridge : isPciBridge t c = true) {x : DeviceId × BaseCall}
    (hx : Writes t args c (routed t dstirq (c :: bridges)) x) : Writes t args root dstirq x := by
  induction hbehind with
  | @link b c hb hd =>
    refine .bridge hb hd hpci hbridge ?_
    have heq : routed t dstirq [c] = roundPins dstirq (t.devfn c >>> 3) := by
      funext i
      simp [routed, roundPins, slots]
    rwa [← heq]
  | @bridge c' bridges b c _ hpci' hbridge' hb hd ih =>
    refine ih hpci' hbridge' (.bridge hb hd hpci hbridge ?_)
    have heq : routed t dstirq (c :: c' :: bridges) =
        roundPins (routed t dstirq (c' :: bridges)) (t.devfn c >>> 3) := by
      funext i
      rw [roundPins, routed, routed, slots_cons]
      congr 1
      omega
    rwa [← heq]

lemma Behind.writes_device (h : IsTree t rank height) (hbehind : Behind t root d bridges)
    (hpci : t.isPci d = true) (hclass : t.classCode d >>> 16 ≠ PCI_BASE_CLASS_BRIDGE) {i : ℕ}
    (hi : i < 4) : Writes t args root dstirq
      (d, pinEntry t args (t.bus d) d i (dstirq ((i + slots t (d :: bridges)) % 4))) := by
  cases hbehind with
  | link hb hd =>
    have hslot : roundPins dstirq (t.devfn d >>> 3) i = dstirq ((i + slots t [d]) % 4) := by
      simp [roundPins, slots]
    rw [h.bus hd, ← hslot]
    exact .device hb hd hpci hclass hi
  | @bridge c above b _ hc hpci' hbridge hb hd =>
    have hslot : roundPins (routed t dstirq (c :: above)) (t.devfn d >>> 3) i =
        dstirq ((i + slots t (d :: c :: above)) % 4) := by
      rw [roundPins, routed, slots_cons (d := d)]
      congr 1
      omega
    rw [h.bus hd, ← hslot]
    exact hc.writes hpci' hbridge (.device hb hd hpci hclass hi)

/-! ### Agreement -/

lemma eq_of_or_eq {x y i j : ℕ} (hi : i < 4) (hj : j < 4)
    (h : (x <<< 2) ||| i = (y <<< 2) ||| j) : x = y ∧ i = j := by
  rw [← Nat.shiftLeft_add_eq_or_of_lt hi, ← Nat.shiftLeft_add_eq_or_of_lt hj,
    Nat.shiftLeft_eq, Nat.shiftLeft_eq] at h
  omega

/-- The two functions agree on a device behind the bridge `root` on bus 0, whose pin is 1 to 4: the
walk up ends at the bridge with the pin `p` there, and each entry that the walk down writes for the
bus, the slot and the pin names the input of `p`. There is one unless the device is a bridge
itself. -/
theorem swizzleIrqPins_agrees (h : IsTree t rank height) (hroot : root ∈ t.children (t.bus root))
    (hbus : t.secondary (t.bus root) = 0) (hbehind : Behind t root d bridges)
    (hsec : ∀ c ∈ bridges, 0 < t.secondary (t.bus c)) (hpci : t.isPci d = true)
    (hpin : 1 ≤ t.interruptPin d ∧ t.interruptPin d ≤ 4) (args : Args) (dstirq : ℕ → ℕ) :
    ∃ p : ℕ, (∃ rounds, swizzleIrqPins t rounds d = some ((p : ℤ), some root)) ∧ 1 ≤ p ∧
      p - 1 = (t.interruptPin d - 1 + slots t (d :: bridges)) % 4 ∧
      ∃ depth l, smpWriteIntsrcPciBridge t args depth root dstirq = some l ∧
        (∀ x ∈ l, t.bus x.1 = t.bus d → ∀ irqtype irqflag srcbus dstapic dst,
          x.2 = .intsrc irqtype irqflag srcbus
            (((t.devfn d >>> 3) <<< 2) ||| (t.interruptPin d - 1)) dstapic dst →
          srcbus = t.secondary (t.bus d) ∧ dst = dstirq (p - 1)) ∧
        (t.classCode d >>> 16 ≠ PCI_BASE_CLASS_BRIDGE →
          (d, pinEntry t args (t.bus d) d (t.interruptPin d - 1) (dstirq (p - 1))) ∈ l) := by
  have hup := swizzleLoop_eq h hbehind hbus hsec (Nat.lt_succ_self _) (t.interruptPin d - 1)
  have hpos : ((t.interruptPin d - 1 : ℕ) : ℤ) = (t.interruptPin d : ℤ) - 1 := by
    push_cast [hpin.1]
    rfl
  have hswizzle : swizzleIrqPins t (bridges.length + 1) d =
      some ((((t.interruptPin d - 1 + slots t (d :: bridges)) % 4 + 1 : ℕ) : ℤ), some root) := by
    rw [swizzleIrqPins, ← hpos, hup]
    simp
  have hdepth : ∀ b ∈ t.linkList root, height ≤ rank b + height := fun b _ => Nat.le_add_left _ _
  obtain ⟨l, hl⟩ := @smpWriteIntsrcPciBridge_isSome t rank height height root args dstirq h hdepth
  have hlt : t.interruptPin d - 1 < 4 := by omega
  refine ⟨(t.interruptPin d - 1 + slots t (d :: bridges)) % 4 + 1, ⟨_, hswizzle⟩,
    Nat.le_add_left _ _, Nat.add_sub_cancel _ _, height + 1, l, hl, ?_, ?_⟩
  · rintro x hx hsame irqtype irqflag srcbus dstapic dst heq
    have hwrites := (mem_smpWriteIntsrcPciBridge hl).mp hx
    have hcalled : Called t root root [] := Or.inl ⟨rfl, rfl⟩
    obtain ⟨bridges', hbehind', i, hi, hentry⟩ :=
      @Writes.exists_pin _ _ _ _ _ _ _ dstirq h _ x hwrites hcalled fun slot i => rfl
    obtain rfl := hbehind.unique h hroot hbehind' hsame.symm
    rw [heq, pinEntry] at hentry
    obtain ⟨-, -, hsrc, hirq, -, hdst⟩ := BaseCall.intsrc.inj hentry
    obtain ⟨hslot, hi⟩ := eq_of_or_eq hlt hi hirq
    rw [hsrc, hsame, hdst, Nat.add_sub_cancel, slots_cons, slots_cons, hslot, hi]
    exact ⟨rfl, rfl⟩
  · intro hclass
    rw [Nat.add_sub_cancel]
    exact (mem_smpWriteIntsrcPciBridge hl).mpr (hbehind.writes_device h hpci hclass hlt)

/-- A bridge on bus 0, a bridge in slot 3 behind it, and a device in slot 5 behind that one, which
uses the second pin. -/
def nestedTopology : Topology where
  bus d := d
  dev b := if b = 0 then none else some (b - 1)
  secondary b := b
  linkList d := if d < 2 then [d + 1] else []
  children b := if b < 3 then [b] else []
  isPci _ := true
  devfn d := if d = 0 then 0x20 else if d = 1 then 0x18 else 0x29
  classCode d := if d < 2 then 0x060400 else 0x020000
  interruptPin d := if d = 2 then 2 else 0

lemma nestedTopology_children {b d : ℕ} (h : d ∈ nestedTopology.children b) : d = b ∧ b < 3 := by
  simp only [nestedTopology] at h
  split_ifs at h with hb <;> simp_all

lemma nestedTopology_links {b d : ℕ} (h : b ∈ nestedTopology.linkList d) : b = d + 1 := by
  simp only [nestedTopology] at h
  split_ifs at h <;> simp_all

lemma nestedTopology_tree : IsTree nestedTopology id 3 := by
  constructor
  · intro b d hd
    exact (nestedTopology_children hd).1
  · intro d b hb
    obtain rfl := nestedTopology_links hb
    rfl
  · intro b d b' hd hb'
    rw [nestedTopology_links hb', (nestedTopology_children hd).1]
    rfl
  · intro b d hd
    exact (nestedTopology_children hd).2

theorem swizzleIrqPins_agrees_nested :
    ∃ p : ℕ, (∃ rounds, swizzleIrqPins nestedTopology rounds 2 = some ((p : ℤ), some 0)) ∧ 1 ≤ p ∧
      p - 1 = (2 - 1 + slots nestedTopology [2, 1]) % 4 ∧
      ∃ depth l, smpWriteIntsrcPciBridge nestedTopology ⟨0, 15, 4⟩ depth 0 (fun i => 16 + i) = some l ∧
        (∀ x ∈ l, x.1 = 2 → ∀ irqtype irqflag srcbus dstapic dst,
          x.2 = .intsrc irqtype irqflag srcbus (((0x29 >>> 3) <<< 2) ||| (2 - 1)) dstapic dst →
          srcbus = 2 ∧ dst = 16 + (p - 1)) ∧
        (2, pinEntry nestedTopology ⟨0, 15, 4⟩ 2 2 1 (16 + (p - 1))) ∈ l := by
  have hbehind : Behind nestedTopology 0 2 [1] :=
    .bridge (.link (show 1 ∈ nestedTopology.linkList 0 by decide) (by decide)) rfl (by decide)
      (show 2 ∈ nestedTopology.linkList 1 by decide) (by decide)
  have hsec : ∀ c ∈ [1], 0 < nestedTopology.secondary (nestedTopology.bus c) := by decide
  obtain ⟨p, hup, hp, heq, depth, l, hl, hall, hexists⟩ := swizzleIrqPins_agrees nestedTopology_tree
    (show 0 ∈ nestedTopology.children 0 by decide) rfl hbehind hsec rfl (by decide) ⟨0, 15, 4⟩
    (fun i => 16 + i)
  exact ⟨p, hup, hp, heq, depth, l, hl, hall, hexists (by decide)⟩

end ApuBios.Pci
