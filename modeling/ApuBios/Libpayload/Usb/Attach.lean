import ApuBios.Libpayload.Usb.Descriptors

/-!
# Attaching devices

`usb_attach_device` and `usb_detach_device` over a controller with `generic_set_address`. An entry is
allocated before the device has got its address, and no later failure but that of the class driver takes
it back.
-/

namespace ApuBios.Usb

/-- UHCI, OHCI and EHCI controllers, for the drivers that are compiled in. -/
def genericController (USB_HID USB_MSC USB_HUB : Bool) : Controller :=
  ⟨USB_HID, USB_MSC, USB_HUB, genericSetAddress, 0⟩

/-- A device that is plugged in: where, and whether the `init` function that it gets detaches it. That
function does not change the table in other ways. -/
structure Attach where
  device : Device
  hubaddress : ℤ
  port : ℤ
  speed : ℤ
  detaches : Bool

def usbDetachDevice (hci : Hci) (devno : Fin 128) : Hci :=
  if (hci devno).isSome then Function.update hci devno none else hci

def usbAttachDevice (c : Controller) (a : Attach) (hci : Hci) : Except Fault (ℤ × Hci) := do
  let (newdev, hci) ← setAddress c a.device hci a.speed a.port a.hubaddress
  if newdev = -1 then
    return (-1, hci)
  let i ← inTable (index newdev)
  let hci := if a.detaches then usbDetachDevice hci i else hci
  return (if (hci i).isSome then newdev else -1, hci)

/-- Devices that are attached one after the other, with what is returned for each. -/
def attachAll (c : Controller) : List Attach → Hci → Except Fault (List ℤ × Hci)
  | [], hci => .ok ([], hci)
  | a :: as, hci => do
    let (r, hci) ← usbAttachDevice c a hci
    let (rs, hci) ← attachAll c as hci
    return (r :: rs, hci)

/-! ### What is to hold -/

/-- The table is as before, or a free address has an entry now. -/
structure Attached (hci : Hci) (r : ℤ) (hci' : Hci) : Prop where
  failed : r = -1 → hci' = hci
  attached : r ≠ -1 → ∃ i : Fin 128, i ≠ 0 ∧ r = (i : ℕ) ∧ hci i = none ∧ (hci' i).isSome ∧
    ∀ j ≠ i, hci' j = hci j

/-- Each call stays in the table and obeys the law. -/
def LawfulCalls (c : Controller) : List Attach → Hci → Prop
  | [], _ => True
  | a :: as, hci => ∃ r hci', usbAttachDevice c a hci = .ok (r, hci') ∧ Attached hci r hci' ∧
    LawfulCalls c as hci'

/-- Each call obeys the law, and if all of them fail, no address is used up. -/
structure Lawful (c : Controller) (as : List Attach) (hci : Hci) : Prop where
  calls : LawfulCalls c as hci
  failing : ∃ rs hci', attachAll c as hci = .ok (rs, hci') ∧ ((∀ r ∈ rs, r = -1) → hci' = hci)

/-- The addresses without an entry, from the lowest one. -/
def freeAddresses (hci : Hci) : List (Fin 128) :=
  (List.finRange 128).filter fun i => i.val ≠ 0 ∧ (hci i).isNone

/-- The device accepts the address, and has a configuration and descriptors that fit. -/
structure Accepts (c : Controller) (d : Device) (i : Fin 128) : Prop where
  address : (d.control 0 ⟨0, SET_ADDRESS, i, 0, 0⟩).ret = 0
  configurations : byteAt (deviceBytes d) 17 ≠ 0
  descriptors : DescriptorsFit c (deviceBytes d) (configurationBytes d)

/-- Each device in turn finds a free address and accepts it. A device that is not detached keeps its
address. -/
def AllAccept (c : Controller) : List Attach → List (Fin 128) → Prop
  | [], _ => True
  | _ :: _, [] => False
  | a :: as, i :: free => Accepts c a.device i ∧ AllAccept c as (if a.detaches then i :: free else free)

variable {c : Controller} {a : Attach} {as : List Attach} {d : Device} {hci hci' : Hci} {dev : Usbdev}
  {i : Fin 128} {free : List (Fin 128)} {r : ℤ} {speed hubport hubaddr : ℤ}

/-! ### Free addresses -/

lemma mem_freeAddresses : i ∈ freeAddresses hci ↔ i.val ≠ 0 ∧ hci i = none := by
  simp [freeAddresses]

lemma getFreeAddress_nil (h : freeAddresses hci = []) : getFreeAddress hci = -1 := by
  have hfind : (List.finRange 128).find? (fun i => i.val ≠ 0 ∧ (hci i).isNone) = none := by
    rw [← List.head?_filter]
    exact List.head?_eq_none_iff.mpr h
  rw [getFreeAddress, hfind]

lemma getFreeAddress_cons (h : freeAddresses hci = i :: free) : getFreeAddress hci = (i : ℕ) := by
  have hfind : (List.finRange 128).find? (fun i => i.val ≠ 0 ∧ (hci i).isNone) = some i := by
    rw [← List.head?_filter]
    exact congrArg List.head? h
  rw [getFreeAddress, hfind]

/-- The first free address is used up. -/
lemma freeAddresses_update (h : freeAddresses hci = i :: free) :
    freeAddresses (Function.update hci i (some dev)) = free := by
  have hnodup : (freeAddresses hci).Nodup := (List.nodup_finRange 128).filter _
  rw [h, List.nodup_cons] at hnodup
  have hfilter : freeAddresses (Function.update hci i (some dev)) =
      (freeAddresses hci).filter fun j => j ≠ i := by
    rw [freeAddresses, freeAddresses, List.filter_filter]
    apply List.filter_congr
    intro j _
    by_cases hj : j = i
    · simp [hj]
    · simp [hj]
  rw [hfilter, h, List.filter_cons_of_neg (by simp), List.filter_eq_self]
  intro j hj
  simpa using fun heq : j = i => hnodup.1 (heq ▸ hj)

lemma index_val (i : Fin 128) : index (i : ℕ) = some i := by
  have hbound : 0 ≤ ((i : ℕ) : ℤ) ∧ ((i : ℕ) : ℤ) < 128 := by omega
  rw [index, dif_pos hbound]
  rfl

/-! ### One device -/

/-- There is an entry for the first free address then, whether the device accepts it or not. -/
lemma genericSetAddress_cons (h : freeAddresses hci = i :: free) :
    ∃ dev, genericSetAddress d hci speed hubport hubaddr =
      some (if (d.control 0 ⟨0, SET_ADDRESS, i, 0, 0⟩).ret ≠ 0 then (-1 : ℤ) else (i : ℕ),
        Function.update hci i (some dev)) := by
  rw [genericSetAddress, getFreeAddress_cons h, index_val, Option.map_some]
  simp only [initDeviceEntry, Function.update_self, Option.map_some, Function.update_idem,
    Int.toNat_natCast]
  split_ifs
  · exact ⟨_, rfl⟩
  · exact ⟨_, rfl⟩

lemma genericSetAddress_nil (h : freeAddresses hci = []) :
    genericSetAddress d hci speed hubport hubaddr = none := by
  rw [genericSetAddress, getFreeAddress_nil h]
  rfl

lemma bind_eq_ok {ε α β : Type} {m : Except ε α} {f : α → Except ε β} {b : β} :
    m >>= f = .ok b ↔ ∃ a, m = .ok a ∧ f a = .ok b := by
  cases m with
  | error e =>
    refine iff_of_false (fun h => by cases h) ?_
    rintro ⟨a, ha, -⟩
    cases ha
  | ok a =>
    constructor
    · intro h
      exact ⟨a, rfl, h⟩
    · rintro ⟨a', ha, h⟩
      cases ha
      exact h

lemma ok_bind {ε α β : Type} (a : α) (f : α → Except ε β) : (Except.ok a : Except ε α) >>= f = f a := rfl

lemma readByte_eq {buf : List Byte} {offset : ℤ} {b : Byte} (h : readByte buf offset = .ok b) :
    b = byteAt buf offset := by
  rw [readByte] at h
  split_ifs at h
  exact (Except.ok.inj h).symm

/-- Whether a device is usable is in its device descriptor. -/
lemma readDescriptors_usable {u : Bool × Usbdev} (h : readDescriptors c d dev = .ok u) :
    u.1 = true ↔ byteAt (deviceBytes d) 17 ≠ 0 := by
  obtain ⟨dev', hdev⟩ : ∃ dev', getDescriptor d 1 dev deviceToHost 1 0 0 = (dev', deviceBytes d) :=
    ⟨_, rfl⟩
  rw [readDescriptors, hdev] at h
  obtain ⟨_, -, h⟩ := bind_eq_ok.mp h
  obtain ⟨_, -, h⟩ := bind_eq_ok.mp h
  obtain ⟨_, -, h⟩ := bind_eq_ok.mp h
  obtain ⟨n, hn, h⟩ := bind_eq_ok.mp h
  rw [← readByte_eq hn]
  split_ifs at h with hzero
  · cases h
    exact iff_of_false Bool.false_ne_true (not_not.mpr hzero)
  · obtain ⟨_, -, h⟩ := bind_eq_ok.mp h
    cases h
    exact iff_of_true rfl hzero

/-- A device that refuses its address leaves its entry in the table. -/
lemma setAddress_refused {HID MSC HUB : Bool} (h : freeAddresses hci = i :: free)
    (hrefused : (d.control 0 ⟨0, SET_ADDRESS, i, 0, 0⟩).ret ≠ 0) :
    ∃ dev, setAddress (genericController HID MSC HUB) d hci speed hubport hubaddr =
      .ok (-1, Function.update hci i (some dev)) := by
  obtain ⟨dev, hset⟩ := @genericSetAddress_cons d hci i free speed hubport hubaddr h
  rw [if_pos hrefused] at hset
  refine ⟨dev, ?_⟩
  unfold setAddress
  change (inTable (genericSetAddress d hci speed hubport hubaddr) >>= _) = _
  rw [hset]
  rfl

/-- The descriptors of a device that accepts its address are read into its entry. -/
lemma setAddress_accepted {HID MSC HUB : Bool} (h : freeAddresses hci = i :: free)
    (haccepted : (d.control 0 ⟨0, SET_ADDRESS, i, 0, 0⟩).ret = 0) :
    ∃ dev, setAddress (genericController HID MSC HUB) d hci speed hubport hubaddr =
      ((readDescriptors (genericController HID MSC HUB) d dev).mapError .access).map fun r =>
        (if r.1 then ((i : ℕ) : ℤ) else -1, Function.update hci i (some r.2)) := by
  obtain ⟨dev, hset⟩ := @genericSetAddress_cons d hci i free speed hubport hubaddr h
  rw [if_neg (not_not.mpr haccepted)] at hset
  have hread := @setAddress_of_entry dev (genericController HID MSC HUB) d hci _ i speed hubport hubaddr
    (i : ℕ) hset (index_val i) (Function.update_self _ _ _)
  simp only [Function.update_idem] at hread
  exact ⟨_, hread⟩

lemma usbDetachDevice_update (hfree : hci i = none) :
    usbDetachDevice (Function.update hci i (some dev)) i = hci := by
  rw [usbDetachDevice, Function.update_self, if_pos Option.isSome_some, Function.update_idem, ← hfree,
    Function.update_eq_self]

/-- What happens behind `set_address`. -/
lemma usbAttachDevice_of_usable (h : setAddress c a.device hci a.speed a.port a.hubaddress =
      .ok (((i : ℕ) : ℤ), Function.update hci i (some dev))) (hfree : hci i = none) :
    usbAttachDevice c a hci =
      .ok (if a.detaches then (-1, hci) else (((i : ℕ) : ℤ), Function.update hci i (some dev))) := by
  have hne : ¬((i : ℕ) : ℤ) = -1 := by omega
  have hindex : inTable (index (i : ℕ)) = .ok i := by rw [index_val]; rfl
  unfold usbAttachDevice
  rw [h, ok_bind]
  dsimp only
  rw [if_neg hne, hindex, ok_bind]
  cases a.detaches with
  | true =>
    simp only [if_true, usbDetachDevice_update hfree, hfree, Option.isSome_none, Bool.false_eq_true,
      if_false]
    rfl
  | false =>
    simp only [Bool.false_eq_true, if_false, Function.update_self, Option.isSome_some, if_true]
    rfl

/-- The table behind a device that accepts its address. -/
lemma usbAttachDevice_of_accepts {HID MSC HUB : Bool} (h : freeAddresses hci = i :: free)
    (haccepts : Accepts (genericController HID MSC HUB) a.device i) :
    ∃ dev, usbAttachDevice (genericController HID MSC HUB) a hci =
      .ok (if a.detaches then (-1, hci) else (((i : ℕ) : ℤ), Function.update hci i (some dev))) := by
  obtain ⟨dev, hset⟩ := @setAddress_accepted a.device hci i free a.speed a.port a.hubaddress HID MSC HUB h
    haccepts.address
  obtain ⟨⟨usable, dev'⟩, hread⟩ := (readDescriptors_runs _ _ dev).mpr haccepts.descriptors
  obtain rfl : usable = true := (readDescriptors_usable hread).mpr haccepts.configurations
  rw [hread] at hset
  have hfree : hci i = none := (mem_freeAddresses.mp (h ▸ List.mem_cons_self)).2
  exact ⟨dev', usbAttachDevice_of_usable hset hfree⟩

/-- A call obeys the law exactly if there is a free address that the device accepts. -/
lemma attached_iff {HID MSC HUB : Bool} :
    (∃ r hci', usbAttachDevice (genericController HID MSC HUB) a hci = .ok (r, hci') ∧
      Attached hci r hci') ↔
      ∃ i free, freeAddresses hci = i :: free ∧ Accepts (genericController HID MSC HUB) a.device i := by
  constructor
  · rintro ⟨r, hci', hattach, hlaw⟩
    unfold usbAttachDevice at hattach
    obtain ⟨⟨newdev, hci₁⟩, hset, hattach⟩ := bind_eq_ok.mp hattach
    cases hfree : freeAddresses hci with
    | nil =>
      -- the entry in front of the table
      unfold setAddress at hset
      change (inTable (genericSetAddress _ _ _ _ _) >>= _) = _ at hset
      rw [genericSetAddress_nil hfree] at hset
      cases hset
    | cons i free =>
      have hnone : hci i = none := (mem_freeAddresses.mp (hfree ▸ List.mem_cons_self)).2
      -- an entry that is left behind by a call that fails
      have hleft : ∀ dev, newdev = -1 → hci₁ = Function.update hci i (some dev) → False := by
        rintro dev rfl rfl
        cases hattach
        have hentry := congrFun (hlaw.failed rfl) i
        rw [Function.update_self, hnone] at hentry
        cases hentry
      refine ⟨i, free, rfl, ?_⟩
      by_cases hrefused : (a.device.control 0 ⟨0, SET_ADDRESS, i, 0, 0⟩).ret = 0
      · obtain ⟨dev, haccepted⟩ := @setAddress_accepted a.device hci i free a.speed a.port a.hubaddress
          HID MSC HUB hfree hrefused
        rw [haccepted] at hset
        cases hread : readDescriptors (genericController HID MSC HUB) a.device dev with
        | error e =>
          rw [hread] at hset
          cases hset
        | ok u =>
          rw [hread] at hset
          cases hset
          refine ⟨hrefused, ?_, (readDescriptors_runs _ _ dev).mp ⟨u, hread⟩⟩
          by_contra hzero
          have husable : ¬u.1 = true := fun h => (readDescriptors_usable hread).mp h hzero
          exact hleft _ (if_neg husable) rfl
      · obtain ⟨dev, hset'⟩ := @setAddress_refused a.device hci i free a.speed a.port a.hubaddress
          HID MSC HUB hfree hrefused
        rw [hset'] at hset
        cases hset
        exact (hleft dev rfl rfl).elim
  · rintro ⟨i, free, hfree, haccepts⟩
    obtain ⟨dev, hattach⟩ := usbAttachDevice_of_accepts hfree haccepts
    obtain ⟨hzero, hnone⟩ := mem_freeAddresses.mp (hfree ▸ List.mem_cons_self : i ∈ freeAddresses hci)
    cases hdetaches : a.detaches with
    | true =>
      rw [hdetaches] at hattach
      exact ⟨-1, hci, hattach, fun _ => rfl, fun h => absurd rfl h⟩
    | false =>
      rw [hdetaches] at hattach
      have hne : i ≠ 0 := fun h => hzero (congrArg Fin.val h)
      refine ⟨_, _, hattach, fun h => ?_, fun _ => ⟨i, hne, rfl, hnone, ?_, ?_⟩⟩
      · omega
      · rw [Function.update_self]
        rfl
      · intro j hj
        exact Function.update_of_ne hj _ _

/-! ### Any number of devices -/

/-- Each call obeys the law exactly if each device finds a free address and accepts it. -/
lemma lawfulCalls_iff {HID MSC HUB : Bool} :
    LawfulCalls (genericController HID MSC HUB) as hci ↔
      AllAccept (genericController HID MSC HUB) as (freeAddresses hci) := by
  induction as generalizing hci with
  | nil => exact iff_of_true trivial trivial
  | cons a as ih =>
    rw [LawfulCalls]
    constructor
    · rintro ⟨r, hci', hattach, hlaw, hrest⟩
      obtain ⟨i, free, hfree, haccepts⟩ := attached_iff.mp ⟨r, hci', hattach, hlaw⟩
      obtain ⟨dev, hattach'⟩ := usbAttachDevice_of_accepts hfree haccepts
      rw [hattach'] at hattach
      rw [hfree]
      refine ⟨haccepts, ?_⟩
      rw [ih] at hrest
      cases hdetaches : a.detaches with
      | true =>
        rw [hdetaches] at hattach
        cases hattach
        rw [hfree] at hrest
        exact hrest
      | false =>
        rw [hdetaches] at hattach
        cases hattach
        rw [freeAddresses_update hfree] at hrest
        exact hrest
    · intro hall
      cases hfree : freeAddresses hci with
      | nil =>
        rw [hfree] at hall
        exact hall.elim
      | cons i free =>
        rw [hfree] at hall
        obtain ⟨haccepts, hrest⟩ := hall
        obtain ⟨r, hci', hattach, hlaw⟩ := attached_iff.mpr ⟨i, free, hfree, haccepts⟩
        obtain ⟨dev, hattach'⟩ := usbAttachDevice_of_accepts hfree haccepts
        refine ⟨r, hci', hattach, hlaw, ih.mpr ?_⟩
        rw [hattach'] at hattach
        cases hdetaches : a.detaches with
        | true =>
          rw [hdetaches] at hattach hrest
          cases hattach
          rwa [hfree]
        | false =>
          rw [hdetaches] at hattach hrest
          cases hattach
          rwa [freeAddresses_update hfree]

/-- Calls that obey the law and fail leave the table as it was. -/
lemma LawfulCalls.failing (h : LawfulCalls c as hci) :
    ∃ rs hci', attachAll c as hci = .ok (rs, hci') ∧ ((∀ r ∈ rs, r = -1) → hci' = hci) := by
  induction as generalizing hci with
  | nil => exact ⟨[], hci, rfl, fun _ => rfl⟩
  | cons a as ih =>
    obtain ⟨r, hci', hattach, hlaw, hrest⟩ := h
    obtain ⟨rs, hci'', hrun, hfailing⟩ := ih hrest
    refine ⟨r :: rs, hci'', ?_, fun hall => ?_⟩
    · rw [attachAll, hattach]
      change (attachAll c as hci' >>= _) = _
      rw [hrun]
      rfl
    · rw [List.forall_mem_cons] at hall
      rw [hfailing hall.2, hlaw.failed hall.1]

/-- Devices that are attached one after the other obey the law exactly if each of them finds a free
address, accepts it, and has a configuration and descriptors that fit. -/
theorem lawful_iff (USB_HID USB_MSC USB_HUB : Bool) (as : List Attach) (hci : Hci) :
    Lawful (genericController USB_HID USB_MSC USB_HUB) as hci ↔
      AllAccept (genericController USB_HID USB_MSC USB_HUB) as (freeAddresses hci) := by
  rw [← lawfulCalls_iff]
  exact ⟨fun h => h.calls, fun h => ⟨h, h.failing⟩⟩

/-- A device that refuses its address. -/
def refusingDevice : Device where
  control _ _ := ⟨-1, []⟩
  stack _ := 0
  fresh := blankUsbdev

/-- The entry at address 1 is left. -/
theorem not_lawful :
    ¬Lawful (genericController true true true) [⟨refusingDevice, 0, 1, 0, false⟩] fun _ => none := by
  intro h
  obtain ⟨r, hci', hattach, hlaw, -⟩ := h.calls
  have hleft : ∃ hci₁, usbAttachDevice (genericController true true true)
      ⟨refusingDevice, 0, 1, 0, false⟩ (fun _ => none) = .ok (-1, hci₁) ∧ (hci₁ 1).isSome :=
    ⟨_, rfl, rfl⟩
  obtain ⟨hci₁, hattach', hentry⟩ := hleft
  rw [hattach'] at hattach
  cases hattach
  rw [hlaw.failed rfl] at hentry
  cases hentry

end ApuBios.Usb
