import ApuBios.Device.Pci.Scan.Basic
import ApuBios.Library.LinkedList

/-!
# The lists after a scan

The list that a scan builds has the devices of the numbers that it has scanned, in order, and the
static devices of the others are left over. Each number takes at most one device out of the old list
and puts at most one at the end of the new one (`Inv.step`).
-/

namespace ApuBios.PciScan

open LinkedList

variable {s s' s₀ : State} {list dev devfn rounds : ℕ} {l C O L pre post : List ℕ} {hw : Hardware}

/-! ### The old list -/

/-- A device that `pci_scan_get_dev` looks for. -/
def State.isAt (s : State) (devfn dev : ℕ) : Bool := s.isPci dev && s.devfn dev == devfn

/-- Nothing but the lists is changed. -/
structure SameDevices (s s' : State) : Prop where
  isPci : s'.isPci = s.isPci
  devfn : s'.devfn = s.devfn
  enabled : s'.enabled = s.enabled
  hdrType : s'.hdrType = s.hdrType

lemma SameDevices.trans {s₁ s₂ s₃ : State} (h : SameDevices s₁ s₂) (h' : SameDevices s₂ s₃) :
    SameDevices s₁ s₃ :=
  ⟨h'.1.trans h.1, h'.2.trans h.2, h'.3.trans h.3, h'.4.trans h.4⟩

lemma SameDevices.isAt (h : SameDevices s s') : s'.isAt devfn dev = s.isAt devfn dev := by
  rw [State.isAt, h.isPci, h.devfn, State.isAt]

lemma findDevfn_succ_of_not (h0 : s.read list ≠ 0) (h : s.isAt devfn (s.read list) = false) :
    findDevfn devfn (rounds + 1) list s = findDevfn devfn rounds (s.read list) s := by
  rw [findDevfn, if_neg h0]
  cases hpci : s.isPci (s.read list) with
  | false => rfl
  | true =>
    have hne : s.devfn (s.read list) ≠ devfn := by simpa [State.isAt, hpci] using h
    simp only [Bool.not_true, Bool.false_eq_true, if_false, if_neg hne]

lemma findDevfn_succ_of_isAt (h0 : s.read list ≠ 0) (h : s.isAt devfn (s.read list) = true) :
    findDevfn devfn (rounds + 1) list s = some (s.unlink list (s.read list), s.read list) := by
  rw [State.isAt, Bool.and_eq_true, beq_iff_eq] at h
  rw [findDevfn, if_neg h0, h.1, h.2]
  simp

lemma findDevfn_of_forall_not (h : IsChain s.sibling (s.read list) l)
    (hnot : ∀ d ∈ l, s.isAt devfn d = false) (hrounds : l.length < rounds) :
    findDevfn devfn rounds list s = some (s, 0) := by
  induction l generalizing list rounds with
  | nil =>
    obtain ⟨rounds, rfl⟩ := Nat.exists_eq_succ_of_ne_zero hrounds.ne'
    rw [findDevfn, IsChain.nil_iff.mp h]
    rfl
  | cons d l ih =>
    obtain ⟨rounds, rfl⟩ := Nat.exists_eq_succ_of_ne_zero (Nat.ne_zero_of_lt hrounds)
    obtain ⟨rfl, hd0, htail⟩ := IsChain.cons_iff.mp h
    rw [List.forall_mem_cons] at hnot
    rw [findDevfn_succ_of_not hd0 hnot.1]
    apply ih _ hnot.2 (by simpa using hrounds)
    rwa [State.read, if_neg hd0]

lemma findDevfn_of_isAt (h : IsChain s.sibling (s.read list) (pre ++ dev :: post))
    (hpre : ∀ d ∈ pre, s.isAt devfn d = false) (hdev : s.isAt devfn dev = true)
    (hrounds : pre.length < rounds) :
    findDevfn devfn rounds list s = some (s.unlink (pre.getLast?.getD list) dev, dev) := by
  induction pre generalizing list rounds with
  | nil =>
    obtain ⟨rounds, rfl⟩ := Nat.exists_eq_succ_of_ne_zero hrounds.ne'
    obtain ⟨rfl, hd0, -⟩ := IsChain.cons_iff.mp h
    rw [findDevfn_succ_of_isAt hd0 hdev]
    rfl
  | cons d pre ih =>
    obtain ⟨rounds, rfl⟩ := Nat.exists_eq_succ_of_ne_zero (Nat.ne_zero_of_lt hrounds)
    obtain ⟨rfl, hd0, htail⟩ := IsChain.cons_iff.mp h
    rw [List.forall_mem_cons] at hpre
    have hrest := @ih (s.read list) rounds (by rwa [State.read, if_neg hd0]) hpre.2
      (by simpa using hrounds)
    rw [findDevfn_succ_of_not hd0 hpre.1, hrest, List.getLast?_cons]
    rfl

/-- The device is taken out of the old list and nothing else is changed. -/
structure Unlinked (s s' : State) (dev : ℕ) (l : List ℕ) : Prop where
  old : IsChain s'.sibling s'.oldDevices l
  detached : s'.sibling dev = 0
  sibling : ∀ d, d ∉ l → d ≠ dev → s'.sibling d = s.sibling d
  children : s'.children = s.children
  same : SameDevices s s'

lemma unlinked_unlink (h : IsChain s.sibling s.oldDevices (pre ++ dev :: post)) :
    Unlinked s (s.unlink (pre.getLast?.getD 0) dev) dev (pre ++ post) := by
  have hnodup := h.nodup
  have hout : dev ∉ pre ++ post := by
    rw [List.nodup_middle, List.nodup_cons] at hnodup
    exact hnodup.1
  rcases List.eq_nil_or_concat pre with rfl | ⟨pre, w, rfl⟩
  · obtain ⟨hdev, hd0, htail⟩ := IsChain.cons_iff.mp h
    refine ⟨?_, ?_, ?_, rfl, rfl, rfl, rfl, rfl⟩
    · apply IsChain.congr htail
      intro a ha
      exact Function.update_of_ne (ne_of_mem_of_not_mem ha hout) _ _
    · exact Function.update_self ..
    · intro d _ hd
      exact Function.update_of_ne hd _ _
  · rw [List.concat_eq_append, List.append_assoc, List.singleton_append] at h hnodup hout ⊢
    have hw0 : w ≠ 0 := fun h0 => h.2 (by simp [h0])
    have hwdev : w ≠ dev := fun heq => hout (by simp [heq])
    have hwrite : s.write w (s.sibling dev) =
        { s with sibling := Function.update s.sibling w (s.sibling dev) } := if_neg hw0
    have hunlink : (s.unlink w dev).sibling =
        Function.update (Function.update s.sibling w (s.sibling dev)) dev 0 := by
      rw [State.unlink, hwrite]
    have hold : (s.unlink w dev).oldDevices = s.oldDevices := by rw [State.unlink, hwrite]
    rw [List.getLast?_concat, Option.getD_some]
    refine ⟨?_, ?_, ?_, by rw [State.unlink, hwrite], ?_⟩
    · rw [hunlink, hold]
      have hmem : dev ∉ pre ++ post := fun hmem => hout (by
        rcases List.mem_append.mp hmem with hpre | hpost
        · simp [hpre]
        · simp [hpost])
      have hw : w ∉ pre ++ post := by
        rw [List.nodup_middle, List.nodup_cons] at hnodup
        exact fun hmem => hnodup.1 (by simpa using Or.imp_right Or.inr (List.mem_append.mp hmem))
      apply h.remove
      · rw [Function.update_of_ne hwdev, Function.update_self]
      · intro a ha
        rw [Function.update_of_ne (ne_of_mem_of_not_mem ha hmem),
          Function.update_of_ne (ne_of_mem_of_not_mem ha hw)]
    · rw [hunlink, Function.update_self]
    · intro d hd hne
      rw [hunlink, Function.update_of_ne hne, Function.update_of_ne]
      rintro rfl
      exact hd (by simp)
    · rw [State.unlink, hwrite]
      exact ⟨rfl, rfl, rfl, rfl⟩

/-! ### The new list -/

lemma lastChild_eq {child : ℕ} (h : IsChain s.sibling child l) (hrounds : l.length < rounds) :
    lastChild s rounds child = some (l.getLast?.getD 0) := by
  induction l generalizing child rounds with
  | nil =>
    obtain ⟨rounds, rfl⟩ := Nat.exists_eq_succ_of_ne_zero hrounds.ne'
    rw [lastChild, IsChain.nil_iff.mp h]
    rfl
  | cons d l ih =>
    obtain ⟨rounds, rfl⟩ := Nat.exists_eq_succ_of_ne_zero (Nat.ne_zero_of_lt hrounds)
    obtain ⟨rfl, hd0, htail⟩ := IsChain.cons_iff.mp h
    rw [lastChild]
    by_cases hnext : s.sibling child = 0
    · rw [htail.eq_nil_iff.mpr hnext, if_neg (by tauto)]
      rfl
    · rw [if_pos ⟨hd0, hnext⟩, ih htail (by simpa using hrounds), List.getLast?_cons]
      have hl : l ≠ [] := fun hl => hnext (htail.eq_nil_iff.mp hl)
      rw [List.getLast?_eq_some_getLast hl]
      rfl

/-- The device is put at the end of the children and nothing else is changed. -/
structure Appended (s s' : State) (dev : ℕ) (C : List ℕ) : Prop where
  children : IsChain s'.sibling s'.children (C ++ [dev])
  sibling : ∀ d, d ∉ C → s'.sibling d = s.sibling d
  oldDevices : s'.oldDevices = s.oldDevices
  same : SameDevices s s'

lemma appended_link (h : IsChain s.sibling s.children C) (hdev : s.sibling dev = 0)
    (hdev0 : dev ≠ 0) (hC : dev ∉ C) : Appended s (s.link (C.getLast?.getD 0) dev) dev C := by
  rcases List.eq_nil_or_concat C with rfl | ⟨C, w, rfl⟩
  · refine ⟨?_, fun _ _ => rfl, rfl, rfl, rfl, rfl, rfl⟩
    exact IsChain.cons_iff.mpr ⟨rfl, hdev0, IsChain.nil_iff.mpr hdev⟩
  · rw [List.concat_eq_append] at h hC ⊢
    have hw0 : w ≠ 0 := fun h0 => h.2 (by simp [h0])
    have hlink : s.link w dev = { s with sibling := Function.update s.sibling w dev } := if_pos hw0
    have hw : w ∉ C := fun hmem => (List.nodup_append.mp h.nodup).2.2 w hmem w (by simp) rfl
    rw [List.getLast?_concat, Option.getD_some, hlink]
    refine ⟨?_, ?_, rfl, rfl, rfl, rfl, rfl⟩
    · apply h.concat (Function.update_self ..) _ hdev0
      · intro a ha
        exact Function.update_of_ne (ne_of_mem_of_not_mem ha hw) _ _
      · rw [Function.update_of_ne (fun heq => hC (by simp [heq]))]
        exact hdev
    · intro d hd
      exact Function.update_of_ne (fun heq => hd (by simp [heq])) _ _

/-! ### One number -/

/-- The two lists of the scan. -/
structure Lists (s : State) (C O : List ℕ) : Prop where
  children : IsChain s.sibling s.children C
  old : IsChain s.sibling s.oldDevices O
  disjoint : ∀ d ∈ C, d ∉ O

/-- What `pci_probe_dev` writes is in the device. -/
structure Probed (s s' : State) (dev : ℕ) : Prop where
  children : s'.children = s.children
  oldDevices : s'.oldDevices = s.oldDevices
  sibling : s'.sibling = s.sibling
  isPci : s'.isPci = s.isPci
  devfn : s'.devfn = s.devfn
  enabled : ∀ d, d ≠ dev → s'.enabled d = s.enabled d
  hdrType : ∀ d, d ≠ dev → s'.hdrType d = s.hdrType d

lemma Probed.lists (h : Probed s s' dev) (hs : Lists s C O) : Lists s' C O := by
  refine ⟨?_, ?_, hs.disjoint⟩
  · rw [h.children, h.sibling]
    exact hs.children
  · rw [h.oldDevices, h.sibling]
    exact hs.old

lemma probed_configure : Probed s (configure hw devfn dev s) dev :=
  ⟨rfl, rfl, rfl, rfl, rfl, fun _ hd => Function.update_of_ne hd _ _,
    fun _ hd => Function.update_of_ne hd _ _⟩

/-- The device is enabled and the only function of its slot. -/
def State.Single (s : State) (dev : ℕ) : Prop := s.enabled dev = true ∧ s.hdrType dev &&& 0x80 ≠ 0x80

lemma single_configure : (configure hw devfn dev s).Single dev ↔
    hw.enable devfn (s.enabled dev) = true ∧ hw.hdrType devfn &&& 0x80 ≠ 0x80 := by
  simp only [State.Single, configure, Function.update_self]

lemma pciProbeDev_of_ne_zero (hdev : dev ≠ 0) :
    ∃ s', pciProbeDev hw rounds dev devfn s = some (s', dev) ∧ Probed s s' dev ∧
      (s'.Single dev ↔ noDevice (hw.id devfn) = false ∧
        hw.enable devfn (hw.enableDev devfn (s.enabled dev)) = true ∧
        hw.hdrType devfn &&& 0x80 ≠ 0x80) := by
  rw [pciProbeDev, if_neg hdev]
  cases hid : noDevice (hw.id devfn) with
  | true =>
    refine ⟨_, if_pos rfl, ⟨rfl, rfl, rfl, rfl, rfl, ?_, fun _ _ => rfl⟩, ?_⟩
    · intro d hd
      simp only [Function.update_of_ne hd]
    · simp [State.Single]
  | false =>
    refine ⟨_, if_neg Bool.false_ne_true, ⟨rfl, rfl, rfl, rfl, rfl, ?_, ?_⟩, ?_⟩
    · intro d hd
      simp only [configure, Function.update_of_ne hd]
    · intro d hd
      simp only [configure, Function.update_of_ne hd]
    · simp only [single_configure, Function.update_self, true_and]

/-- A static device of the number goes from the old list to the new one. -/
lemma pciScanGetDev_of_isAt (h : Lists s C (pre ++ dev :: post))
    (hpre : ∀ d ∈ pre, s.isAt devfn d = false) (hdev : s.isAt devfn dev = true)
    (hC : C.length < rounds) (hO : pre.length < rounds) :
    ∃ s', pciScanGetDev rounds devfn s = some (s', dev) ∧ Lists s' (C ++ [dev]) (pre ++ post) ∧
      SameDevices s s' := by
  have hunlinked := unlinked_unlink h.old
  have hdev0 : dev ≠ 0 := fun h0 => h.old.2 (by simp [h0])
  have hdevC : dev ∉ C := fun hmem => h.disjoint dev hmem (by simp)
  have hdevO : dev ∉ pre ++ post := by
    have hnodup := h.old.nodup
    rw [List.nodup_middle, List.nodup_cons] at hnodup
    exact hnodup.1
  have hsub : ∀ d ∈ C, d ∉ pre ++ post := fun d hd hmem => h.disjoint d hd (by
    rcases List.mem_append.mp hmem with hmem | hmem
    · simp [hmem]
    · simp [hmem])
  have hfind : findDevfn devfn rounds 0 s = some (s.unlink (pre.getLast?.getD 0) dev, dev) :=
    findDevfn_of_isAt h.old hpre hdev hO
  generalize s.unlink (pre.getLast?.getD 0) dev = t at hfind hunlinked
  have hchildren : IsChain t.sibling t.children C := by
    rw [hunlinked.children]
    apply h.children.congr
    intro d hd
    exact hunlinked.sibling d (hsub d hd) (ne_of_mem_of_not_mem hd hdevC)
  have happended := appended_link hchildren hunlinked.detached hdev0 hdevC
  refine ⟨t.link (C.getLast?.getD 0) dev, ?_, ⟨happended.children, ?_, ?_⟩,
    hunlinked.same.trans happended.same⟩
  · rw [pciScanGetDev, hfind, Option.bind_some]
    simp only [ne_eq, hdev0, not_false_eq_true, if_true, lastChild_eq hchildren hC, Option.map_some]
  · rw [happended.oldDevices]
    apply hunlinked.old.congr
    intro d hd
    exact happended.sibling d fun hmem => hsub d hmem hd
  · intro d hd
    rcases List.mem_append.mp hd with hd | hd
    · exact hsub d hd
    · rwa [List.mem_singleton.mp hd]

lemma pciScanGetDev_of_forall_not (h : Lists s C O) (hnot : ∀ d ∈ O, s.isAt devfn d = false)
    (hO : O.length < rounds) : pciScanGetDev rounds devfn s = some (s, 0) := by
  rw [pciScanGetDev, findDevfn_of_forall_not h.old hnot hO]
  rfl

/-- A new device is put at the end of the new list. -/
lemma allocDev_appends (h : Lists s C O) (hm0 : hw.malloc devfn ≠ 0) (hmC : hw.malloc devfn ∉ C)
    (hmO : hw.malloc devfn ∉ O) (hC : C.length < rounds) :
    ∃ s', allocDev hw rounds devfn s = some (s', hw.malloc devfn) ∧
      Lists s' (C ++ [hw.malloc devfn]) O ∧ s'.isAt devfn (hw.malloc devfn) = true ∧
      s'.enabled (hw.malloc devfn) = true ∧
      ∀ d, d ≠ hw.malloc devfn → s'.isPci d = s.isPci d ∧ s'.devfn d = s.devfn d ∧
        s'.enabled d = s.enabled d ∧ s'.hdrType d = s.hdrType d := by
  rw [allocDev, lastChild_eq h.children hC, Option.map_some]
  generalize hdev : hw.malloc devfn = dev at hm0 hmC hmO
  -- the device is initialized first
  generalize ht : ({ s with
      sibling := Function.update s.sibling dev 0
      isPci := Function.update s.isPci dev true
      devfn := Function.update s.devfn dev devfn
      enabled := Function.update s.enabled dev true
      hdrType := Function.update s.hdrType dev 0 } : State) = t
  have hchildren : IsChain t.sibling t.children C := by
    subst ht
    exact h.children.congr fun d hd => Function.update_of_ne (ne_of_mem_of_not_mem hd hmC) _ _
  have hold : IsChain t.sibling t.oldDevices O := by
    subst ht
    exact h.old.congr fun d hd => Function.update_of_ne (ne_of_mem_of_not_mem hd hmO) _ _
  have hnull : t.sibling dev = 0 := by
    subst ht
    exact Function.update_self ..
  have happended := appended_link hchildren hnull hm0 hmC
  refine ⟨t.link (C.getLast?.getD 0) dev, by rw [← ht], ⟨happended.children, ?_, ?_⟩, ?_, ?_, ?_⟩
  · rw [happended.oldDevices]
    exact hold.congr fun d hd => happended.sibling d fun hmem => h.disjoint d hmem hd
  · intro d hd
    rcases List.mem_append.mp hd with hd | hd
    · exact h.disjoint d hd
    · rwa [List.mem_singleton.mp hd]
  · rw [happended.same.isAt, ← ht]
    simp [State.isAt]
  · rw [happended.same.enabled, ← ht]
    exact Function.update_self ..
  · intro d hd
    rw [happended.same.isPci, happended.same.devfn, happended.same.enabled, happended.same.hdrType,
      ← ht]
    simp only [Function.update_of_ne hd, true_and]

/-! ### The invariant -/

/-- The static device of a number. -/
def staticAt (s : State) (L : List ℕ) (devfn : ℕ) : Option ℕ := L.find? (s.isAt devfn)

/-- The device that a number has after its scan. -/
def deviceAt (hw : Hardware) (s : State) (L : List ℕ) (devfn : ℕ) : Option ℕ :=
  (staticAt s L devfn).or (if noDevice (hw.id devfn) then none else some (hw.malloc devfn))

/-- Function 0 of a slot is absent, or it answers, is enabled and has no other functions. -/
def Alone (hw : Hardware) (s : State) (L : List ℕ) (devfn : ℕ) : Prop :=
  match staticAt s L devfn with
  | some dev => noDevice (hw.id devfn) = false ∧
      hw.enable devfn (hw.enableDev devfn (s.enabled dev)) = true ∧ hw.hdrType devfn &&& 0x80 ≠ 0x80
  | none => noDevice (hw.id devfn) = true ∨
      hw.enable devfn true = true ∧ hw.hdrType devfn &&& 0x80 ≠ 0x80

/-- The number is not passed over by a scan from `start` on: only functions of a slot whose function 0
has been scanned and is alone are. -/
def Visited (hw : Hardware) (s : State) (L : List ℕ) (start devfn : ℕ) : Prop :=
  PCI_FUNC devfn ≠ 0 → start ≤ devfn - PCI_FUNC devfn → ¬Alone hw s L (devfn - PCI_FUNC devfn)

/-- The static devices of the numbers that are not scanned. -/
def leftOver (s : State) (L scanned : List ℕ) : List ℕ :=
  L.filter fun d => !scanned.any fun devfn => s.isAt devfn d

/-- What is assumed of the static devices and of `malloc`. -/
structure Setup (hw : Hardware) (s : State) (L : List ℕ) : Prop where
  children : IsChain s.sibling s.children L
  distinct : ∀ d ∈ L, ∀ d' ∈ L, s.isPci d = true → s.isPci d' = true → s.devfn d = s.devfn d' →
    d = d'
  malloc_ne_zero : ∀ devfn, hw.malloc devfn ≠ 0
  malloc_notMem : ∀ devfn, hw.malloc devfn ∉ L
  malloc_injective : Function.Injective hw.malloc

structure Inv (hw : Hardware) (s₀ : State) (L : List ℕ) (s : State) (scanned : List ℕ) : Prop where
  lists : Lists s (scanned.filterMap (deviceAt hw s₀ L)) (leftOver s₀ L scanned)
  static : ∀ d ∈ L, s.isPci d = s₀.isPci d ∧ s.devfn d = s₀.devfn d
  numbered : ∀ devfn ∈ scanned, ∀ d, deviceAt hw s₀ L devfn = some d → s.devfn d = devfn
  frame : ∀ d, d ∉ scanned.filterMap (deviceAt hw s₀ L) → s.isPci d = s₀.isPci d ∧
    s.devfn d = s₀.devfn d ∧ s.enabled d = s₀.enabled d ∧ s.hdrType d = s₀.hdrType d

variable {scanned : List ℕ} {f g d : ℕ}

lemma isAt_iff : s.isAt f d = true ↔ s.isPci d = true ∧ s.devfn d = f := by simp [State.isAt]

lemma staticAt_eq_none : staticAt s L f = none ↔ ∀ d ∈ L, s.isAt f d = false := by
  simp [staticAt, List.find?_eq_none]

lemma staticAt_some (h : staticAt s L f = some d) : d ∈ L ∧ s.isAt f d = true :=
  ⟨List.mem_of_find?_eq_some h, List.find?_some h⟩

lemma mem_leftOver : d ∈ leftOver s L scanned ↔ d ∈ L ∧ ∀ f ∈ scanned, s.isAt f d = false := by
  simp [leftOver]

lemma leftOver_concat :
    leftOver s L (scanned ++ [f]) = (leftOver s L scanned).filter fun d => !s.isAt f d := by
  simp [leftOver, List.filter_filter, Bool.and_comm]

lemma deviceAt_of_some (h : staticAt s L f = some d) : deviceAt hw s L f = some d := by
  rw [deviceAt, h, Option.some_or]

lemma deviceAt_of_none (h : staticAt s L f = none) :
    deviceAt hw s L f = if noDevice (hw.id f) then none else some (hw.malloc f) := by
  rw [deviceAt, h, Option.none_or]

lemma deviceAt_cases (h : deviceAt hw s L f = some d) :
    staticAt s L f = some d ∨
      staticAt s L f = none ∧ noDevice (hw.id f) = false ∧ d = hw.malloc f := by
  cases hstatic : staticAt s L f with
  | some e =>
    rw [deviceAt_of_some hstatic] at h
    exact .inl h
  | none =>
    rw [deviceAt_of_none hstatic] at h
    cases hid : noDevice (hw.id f) with
    | true => simp [hid] at h
    | false =>
      rw [hid, if_neg Bool.false_ne_true, Option.some.injEq] at h
      exact .inr ⟨rfl, rfl, h.symm⟩

/-- A device has one number. -/
lemma deviceAt_injective (hsetup : Setup hw s L) (hf : deviceAt hw s L f = some d)
    (hg : deviceAt hw s L g = some d) : f = g := by
  rcases deviceAt_cases hf with hf | ⟨-, -, hf⟩ <;> rcases deviceAt_cases hg with hg | ⟨-, -, hg⟩
  · rw [← (isAt_iff.mp (staticAt_some hf).2).2, (isAt_iff.mp (staticAt_some hg).2).2]
  · exact absurd (staticAt_some hf).1 (hg ▸ hsetup.malloc_notMem g)
  · exact absurd (staticAt_some hg).1 (hf ▸ hsetup.malloc_notMem f)
  · exact hsetup.malloc_injective (hf ▸ hg)

lemma deviceAt_notMem (hsetup : Setup hw s L) (hf : f ∉ scanned) (hd : deviceAt hw s L f = some d) :
    d ∉ scanned.filterMap (deviceAt hw s L) := by
  intro hmem
  obtain ⟨g, hg, hgd⟩ := List.mem_filterMap.mp hmem
  exact hf (deviceAt_injective hsetup hd hgd ▸ hg)

/-- The only device of a number is taken out of the list. -/
lemma leftOver_split (hsetup : Setup hw s L) (hf : f ∉ scanned) (hd : staticAt s L f = some d) :
    ∃ pre post, leftOver s L scanned = pre ++ d :: post ∧
      leftOver s L (scanned ++ [f]) = pre ++ post ∧ ∀ e ∈ pre, s.isAt f e = false := by
  obtain ⟨hdL, hdf⟩ := staticAt_some hd
  have hmem : d ∈ leftOver s L scanned := by
    refine mem_leftOver.mpr ⟨hdL, ?_⟩
    intro g hg
    by_contra hne
    rw [Bool.not_eq_false] at hne
    exact hf ((isAt_iff.mp hdf).2 ▸ (isAt_iff.mp hne).2 ▸ hg)
  have hnodup : (leftOver s L scanned).Nodup := hsetup.children.nodup.filter _
  obtain ⟨pre, post, hsplit⟩ := List.append_of_mem hmem
  have hother : ∀ e ∈ pre ++ post, s.isAt f e = false := by
    intro e he
    by_contra hne
    rw [Bool.not_eq_false] at hne
    have heL : e ∈ leftOver s L scanned := by
      rw [hsplit]
      rcases List.mem_append.mp he with he | he
      · simp [he]
      · simp [he]
    have heq : e = d := hsetup.distinct e (mem_leftOver.mp heL).1 d hdL (isAt_iff.mp hne).1
      (isAt_iff.mp hdf).1 ((isAt_iff.mp hne).2.trans (isAt_iff.mp hdf).2.symm)
    rw [hsplit, List.nodup_middle, List.nodup_cons] at hnodup
    exact hnodup.1 (heq ▸ he)
  refine ⟨pre, post, hsplit, ?_, fun e he => hother e (List.mem_append_left _ he)⟩
  rw [leftOver_concat, hsplit, List.filter_append, List.filter_cons_of_neg (by simp [hdf]),
    ← List.filter_append, List.filter_eq_self]
  intro e he
  rw [hother e he, Bool.not_false]

lemma leftOver_of_none (h : staticAt s L f = none) :
    leftOver s L (scanned ++ [f]) = leftOver s L scanned := by
  rw [leftOver_concat, List.filter_eq_self]
  intro d hd
  rw [staticAt_eq_none.mp h d (mem_leftOver.mp hd).1, Bool.not_false]

lemma Inv.start (hsetup : Setup hw s L) :
    Inv hw s L { s with oldDevices := s.children, children := 0 } [] := by
  refine ⟨⟨IsChain.nil_iff.mpr rfl, ?_, by simp⟩, fun _ _ => ⟨rfl, rfl⟩, by simp,
    fun _ _ => ⟨rfl, rfl, rfl, rfl⟩⟩
  rw [leftOver, List.filter_eq_self.mpr (by simp)]
  exact hsetup.children

lemma Inv.isAt (h : Inv hw s₀ L s scanned) (hd : d ∈ L) : s.isAt f d = s₀.isAt f d := by
  rw [State.isAt, (h.static d hd).1, (h.static d hd).2, State.isAt]

/-- Nothing is found and nothing answers. -/
lemma Inv.skip (h : Inv hw s₀ L s scanned) (hf : deviceAt hw s₀ L f = none)
    (hstatic : staticAt s₀ L f = none) : Inv hw s₀ L s (scanned ++ [f]) := by
  have hC : (scanned ++ [f]).filterMap (deviceAt hw s₀ L) =
      scanned.filterMap (deviceAt hw s₀ L) := by simp [hf]
  refine ⟨?_, h.static, ?_, ?_⟩
  · rw [hC, leftOver_of_none hstatic]
    exact h.lists
  · intro g hg d hd
    rcases List.mem_append.mp hg with hg | hg
    · exact h.numbered g hg d hd
    · rw [List.mem_singleton.mp hg, hf] at hd
      exact absurd hd (by simp)
  · rw [hC]
    exact h.frame

/-- A device is put at the end of the new list and nothing else is changed. -/
lemma Inv.append (hsetup : Setup hw s₀ L) (h : Inv hw s₀ L s scanned)
    (hf : f ∉ scanned) (hd : deviceAt hw s₀ L f = some d)
    (hlists : Lists s' (scanned.filterMap (deviceAt hw s₀ L) ++ [d]) O)
    (hO : leftOver s₀ L (scanned ++ [f]) = O) (hat : s'.isAt f d = true)
    (hframe : ∀ e, e ≠ d → s'.isPci e = s.isPci e ∧ s'.devfn e = s.devfn e ∧
      s'.enabled e = s.enabled e ∧ s'.hdrType e = s.hdrType e) :
    Inv hw s₀ L s' (scanned ++ [f]) := by
  have hC : (scanned ++ [f]).filterMap (deviceAt hw s₀ L) =
      scanned.filterMap (deviceAt hw s₀ L) ++ [d] := by simp [hd]
  refine ⟨?_, ?_, ?_, ?_⟩
  · rwa [hC, hO]
  · intro e he
    by_cases hed : e = d
    · subst hed
      rcases deviceAt_cases hd with hstatic | ⟨-, -, rfl⟩
      · have hat₀ := (staticAt_some hstatic).2
        rw [isAt_iff] at hat hat₀
        exact ⟨hat.1.trans hat₀.1.symm, hat.2.trans hat₀.2.symm⟩
      · exact absurd he (hsetup.malloc_notMem f)
    · rw [(hframe e hed).1, (hframe e hed).2.1]
      exact h.static e he
  · intro g hg e he
    rcases List.mem_append.mp hg with hg | hg
    · have hed : e ≠ d := by
        rintro rfl
        exact hf (deviceAt_injective hsetup hd he ▸ hg)
      rw [(hframe e hed).2.1]
      exact h.numbered g hg e he
    · rw [List.mem_singleton.mp hg, hd, Option.some.injEq] at he
      rw [← he, List.mem_singleton.mp hg]
      exact (isAt_iff.mp hat).2
  · intro e he
    rw [hC, List.mem_append, List.mem_singleton, not_or] at he
    obtain ⟨hpci, hdevfn, henabled, htype⟩ := hframe e he.2
    rw [hpci, hdevfn, henabled, htype]
    exact h.frame e he.1

lemma length_leftOver_le : (leftOver s L scanned).length ≤ L.length := List.length_filter_le _ _

lemma Inv.step (rounds : ℕ) (hsetup : Setup hw s₀ L) (h : Inv hw s₀ L s scanned) (hf : f ∉ scanned)
    (hC : scanned.length < rounds) (hL : L.length < rounds) :
    ∃ t dev s' dev', pciScanGetDev rounds f s = some (t, dev) ∧
      pciProbeDev hw rounds dev f t = some (s', dev') ∧ Inv hw s₀ L s' (scanned ++ [f]) ∧
      (dev' = 0 ∨ s'.Single dev' ↔ Alone hw s₀ L f) := by
  have hCr : (scanned.filterMap (deviceAt hw s₀ L)).length < rounds :=
    (List.length_filterMap_le _ _).trans_lt hC
  have hLr : (leftOver s₀ L scanned).length < rounds := length_leftOver_le.trans_lt hL
  cases hstatic : staticAt s₀ L f with
  | some d =>
    obtain ⟨pre, post, hsplit, hrest, hpre⟩ := leftOver_split hsetup hf hstatic
    have hmem : ∀ e ∈ pre ++ d :: post, e ∈ L := by
      intro e he
      rw [← hsplit] at he
      exact (mem_leftOver.mp he).1
    have hd : deviceAt hw s₀ L f = some d := deviceAt_of_some hstatic
    have hd0 : d ≠ 0 := fun h0 => hsetup.children.2 (h0 ▸ (staticAt_some hstatic).1)
    have hlists := h.lists
    rw [hsplit] at hlists hLr
    have hpre' : ∀ e ∈ pre, s.isAt f e = false := fun e he => by
      rw [h.isAt (hmem e (by simp [he])), hpre e he]
    have hat : s.isAt f d = true := by
      rw [h.isAt (hmem d (by simp)), (staticAt_some hstatic).2]
    obtain ⟨t, hget, htlists, hsame⟩ :=
      pciScanGetDev_of_isAt hlists hpre' hat hCr (lt_of_le_of_lt (by simp) hLr)
    obtain ⟨s', hprobe, hprobed, hsingle⟩ := @pciProbeDev_of_ne_zero t d f rounds hw hd0
    have henabled : t.enabled d = s₀.enabled d := by
      rw [hsame.enabled, (h.frame d (deviceAt_notMem hsetup hf hd)).2.2.1]
    refine ⟨t, d, s', d, hget, hprobe, ?_, ?_⟩
    swap
    · rw [or_iff_right hd0, hsingle, henabled, Alone, hstatic]
    refine h.append hsetup hf hd (hprobed.lists htlists) hrest ?_ ?_
    · rwa [State.isAt, hprobed.isPci, hprobed.devfn, ← State.isAt, hsame.isAt]
    · intro e he
      rw [hprobed.isPci, hprobed.devfn, hprobed.enabled e he, hprobed.hdrType e he, hsame.isPci,
        hsame.devfn, hsame.enabled, hsame.hdrType]
      exact ⟨rfl, rfl, rfl, rfl⟩
  | none =>
    have hget : pciScanGetDev rounds f s = some (s, 0) := by
      apply pciScanGetDev_of_forall_not h.lists _ hLr
      intro e he
      have heL := (mem_leftOver.mp he).1
      rw [h.isAt heL]
      exact staticAt_eq_none.mp hstatic e heL
    have hdevice : deviceAt hw s₀ L f = if noDevice (hw.id f) then none else some (hw.malloc f) :=
      deviceAt_of_none hstatic
    by_cases hid : noDevice (hw.id f) = true
    · rw [if_pos hid] at hdevice
      refine ⟨s, 0, s, 0, hget, ?_, h.skip hdevice hstatic, ?_⟩
      · rw [pciProbeDev, if_pos rfl, if_pos hid]
      · rw [Alone, hstatic]
        exact iff_of_true (.inl rfl) (.inl hid)
    · rw [if_neg hid] at hdevice
      have hmC : hw.malloc f ∉ scanned.filterMap (deviceAt hw s₀ L) :=
        deviceAt_notMem hsetup hf hdevice
      have hmO : hw.malloc f ∉ leftOver s₀ L scanned := fun hmem =>
        hsetup.malloc_notMem f (mem_leftOver.mp hmem).1
      obtain ⟨t, halloc, htlists, htat, henabled, hframe⟩ :=
        allocDev_appends h.lists (hsetup.malloc_ne_zero f) hmC hmO hCr
      have hprobed : Probed t (configure hw f (hw.malloc f) t) (hw.malloc f) := probed_configure
      refine ⟨s, 0, configure hw f (hw.malloc f) t, hw.malloc f, hget, ?_, ?_, ?_⟩
      · rw [pciProbeDev, if_pos rfl, if_neg hid, halloc]
        rfl
      swap
      · rw [or_iff_right (hsetup.malloc_ne_zero f), single_configure, henabled, Alone, hstatic]
        exact (or_iff_right hid).symm
      · refine h.append hsetup hf hdevice (hprobed.lists htlists) (leftOver_of_none hstatic) ?_ ?_
        · rwa [State.isAt, hprobed.isPci, hprobed.devfn]
        · intro e he
          rw [hprobed.isPci, hprobed.devfn, hprobed.enabled e he, hprobed.hdrType e he]
          exact hframe e he

/-! ### The scan -/

lemma length_le_of_ascending {l : List ℕ} (hl : l.Pairwise (· < ·)) (hle : ∀ f ∈ l, f ≤ 0xff) :
    l.length ≤ 0x100 := by
  have hsub : l ⊆ List.range 0x100 := fun f hf => List.mem_range.mpr (Nat.lt_succ_of_le (hle f hf))
  have hnodup : l.Nodup := hl.imp Nat.ne_of_lt
  simpa using (hnodup.subperm hsub).length_le

/-- The numbers of a scan ascend. -/
structure Numbers (devfn : ℕ) (scanned : List ℕ) : Prop where
  ascending : scanned.Pairwise (· < ·)
  below : ∀ f ∈ scanned, f < devfn
  le : ∀ f ∈ scanned, f ≤ 0xff

lemma Numbers.concat (h : Numbers devfn scanned) (hle : devfn ≤ 0xff) (hg : devfn < g) :
    Numbers g (scanned ++ [devfn]) := by
  refine ⟨List.pairwise_append.mpr ⟨h.ascending, List.pairwise_singleton .., ?_⟩, ?_, ?_⟩
  · intro f hf e he
    rw [List.mem_singleton.mp he]
    exact h.below f hf
  · intro f hf
    rcases List.mem_append.mp hf with hf | hf
    · exact (h.below f hf).trans hg
    · rwa [List.mem_singleton.mp hf]
  · intro f hf
    rcases List.mem_append.mp hf with hf | hf
    · exact h.le f hf
    · rwa [List.mem_singleton.mp hf]

/-- The number that is scanned next. -/
def Next (hw : Hardware) (s : State) (L : List ℕ) (devfn next : ℕ) : Prop :=
  (PCI_FUNC devfn = 0 ∧ Alone hw s L devfn ∧ devfn + 0x07 + 1 = next) ∨
    ((PCI_FUNC devfn = 0 → ¬Alone hw s L devfn) ∧ devfn + 1 = next)

lemma Next.lt {next : ℕ} (h : Next hw s L devfn next) : devfn < next := by
  rcases h with ⟨-, -, rfl⟩ | ⟨-, rfl⟩ <;> omega

lemma pciFunc_eq (devfn : ℕ) : PCI_FUNC devfn = devfn % 8 := Nat.and_two_pow_sub_one_eq_mod devfn 3

/-- What is visited from a number on is this number, and what is visited from the next one on. -/
lemma Next.visited_iff {next maxDevfn : ℕ} (h : Next hw s L devfn next) (hle : devfn ≤ maxDevfn) :
    (f = devfn ∨ (next ≤ f ∧ f ≤ maxDevfn) ∧ Visited hw s L next f) ↔
      (devfn ≤ f ∧ f ≤ maxDevfn) ∧ Visited hw s L devfn f := by
  simp only [Next, Visited, pciFunc_eq, imp_iff_not_or] at h ⊢
  by_cases hslot : f - f % 8 = devfn
  · rw [hslot]
    rcases h with ⟨hfunc, halone, rfl⟩ | ⟨hnot, rfl⟩
    · simp only [halone, not_true_eq_false, or_false]
      omega
    · by_cases halone : Alone hw s L devfn
      · simp only [halone, not_true_eq_false, or_false] at hnot ⊢
        omega
      · simp only [halone, not_false_eq_true, or_true, and_true]
        omega
  · by_cases halone : Alone hw s L (f - f % 8)
    · simp only [halone, not_true_eq_false, or_false]
      omega
    · simp only [halone, not_false_eq_true, or_true, and_true]
      omega

lemma scanLoop_spec (maxDevfn n : ℕ) (hsetup : Setup hw s₀ L) (h : Inv hw s₀ L s scanned)
    (hnum : Numbers devfn scanned) (hmax : maxDevfn ≤ 0xff) (hn : maxDevfn + 1 < n + devfn)
    (hrounds : L.length + 0x100 < rounds) (hn0 : n ≠ 0) :
    ∃ s' rest, scanLoop hw rounds maxDevfn n devfn s = some (s', rest) ∧
      Inv hw s₀ L s' (scanned ++ rest) ∧ (scanned ++ rest).Pairwise (· < ·) ∧
      ∀ f, f ∈ rest ↔ (devfn ≤ f ∧ f ≤ maxDevfn) ∧ Visited hw s₀ L devfn f := by
  induction n generalizing devfn s scanned with
  | zero => exact absurd rfl hn0
  | succ n ih =>
    rw [scanLoop]
    by_cases hle : devfn ≤ maxDevfn
    · have hf : devfn ∉ scanned := fun hmem => (hnum.below devfn hmem).false
      have hlen := length_le_of_ascending hnum.ascending hnum.le
      obtain ⟨t, dev, s', dev', hget, hprobe, hinv, halone⟩ :=
        h.step rounds hsetup hf (by omega) (by omega)
      -- the next number is one or eight more
      obtain ⟨next, hstep, hcases⟩ : ∃ next,
          (if PCI_FUNC devfn = 0x00 ∧
              (dev' = 0 ∨ (s'.enabled dev' = true ∧ s'.hdrType dev' &&& 0x80 ≠ 0x80)) then
            devfn + 0x07 else devfn) + 1 = next ∧ Next hw s₀ L devfn next := by
        refine ⟨_, rfl, ?_⟩
        split_ifs with hskip
        · exact .inl ⟨hskip.1, halone.mp hskip.2, rfl⟩
        · exact .inr ⟨fun h0 ha => hskip ⟨h0, halone.mpr ha⟩, rfl⟩
      have hnext := hcases.lt
      obtain ⟨s'', rest, hloop, hinv', hasc, hmem⟩ := ih hinv
        (hnum.concat (hle.trans hmax) hnext) (by omega) (by omega)
      refine ⟨s'', devfn :: rest, ?_, ?_, ?_, ?_⟩
      · rw [if_pos hle, hget, Option.bind_some]
        simp only [hprobe, Option.bind_some, hstep, hloop, Option.map_some]
      · simpa using hinv'
      · simpa using hasc
      · intro f
        rw [List.mem_cons, hmem f]
        exact hcases.visited_iff hle
    · rw [if_neg hle]
      refine ⟨s, [], rfl, ?_, ?_, fun f => ?_⟩
      · simpa using h
      · simpa using hnum.ascending
      · simp only [List.not_mem_nil, false_iff]
        omega

lemma forChildren_returns {child : ℕ} (scanBus : ℕ → ℕ → ℕ) (max : ℕ) (h : IsChain s.sibling child l)
    (hrounds : l.length < rounds) : ∃ m, forChildren scanBus s rounds child max = some m := by
  induction l generalizing child max rounds with
  | nil =>
    obtain ⟨rounds, rfl⟩ := Nat.exists_eq_succ_of_ne_zero hrounds.ne'
    exact ⟨max, by rw [forChildren, if_pos (IsChain.nil_iff.mp h)]⟩
  | cons d l ih =>
    obtain ⟨rounds, rfl⟩ := Nat.exists_eq_succ_of_ne_zero (Nat.ne_zero_of_lt hrounds)
    obtain ⟨rfl, hd0, htail⟩ := IsChain.cons_iff.mp h
    rw [forChildren, if_neg hd0]
    exact ih _ htail (by simpa using hrounds)

/-- The lists `C` of children and `O` of left over devices after a scan, where `L` is the list of
the static devices. -/
structure Partitioned (hw : Hardware) (s : State) (L : List ℕ) (s' : State) (scanned C O : List ℕ) :
    Prop where
  ascending : (C.map s'.devfn).Pairwise (· < ·)
  static_scanned : ∀ d ∈ L, (∃ f ∈ scanned, s.isAt f d = true) → C.count d = 1 ∧ O.count d = 0
  static_other : ∀ d ∈ L, (¬∃ f ∈ scanned, s.isAt f d = true) → C.count d = 0 ∧ O.count d = 1
  left : ∀ d ∈ O, d ∈ L
  allocated : ∀ d ∈ C, d ∉ L → ∃! f, f ∈ scanned ∧ noDevice (hw.id f) = false ∧
    (∀ e ∈ L, s.isAt f e = false) ∧ hw.malloc f = d ∧ s'.devfn d = f
  answered : ∀ f ∈ scanned, noDevice (hw.id f) = false → (∀ e ∈ L, s.isAt f e = false) →
    hw.malloc f ∈ C
  unchanged : ∀ d, d ∉ C → s'.isPci d = s.isPci d ∧ s'.devfn d = s.devfn d ∧
    s'.enabled d = s.enabled d ∧ s'.hdrType d = s.hdrType d

lemma Inv.partitioned (hsetup : Setup hw s₀ L) (h : Inv hw s₀ L s scanned)
    (hasc : scanned.Pairwise (· < ·)) :
    Partitioned hw s₀ L s scanned (scanned.filterMap (deviceAt hw s₀ L))
      (leftOver s₀ L scanned) := by
  have hC := h.lists.children.nodup
  have hO := h.lists.old.nodup
  refine ⟨?_, ?_, ?_, fun d hd => (mem_leftOver.mp hd).1, ?_, ?_, h.frame⟩
  · rw [List.pairwise_map, List.pairwise_filterMap]
    refine hasc.imp_of_mem ?_
    intro f g hf hg hlt d hd e he
    rwa [h.numbered f hf d hd, h.numbered g hg e he]
  · rintro d hd ⟨f, hf, hat⟩
    have hstatic : staticAt s₀ L f = some d := by
      cases hstatic : staticAt s₀ L f with
      | none => exact absurd hat (by simp [staticAt_eq_none.mp hstatic d hd])
      | some e =>
        obtain ⟨he, heat⟩ := staticAt_some hstatic
        rw [isAt_iff] at hat heat
        rw [hsetup.distinct e he d hd heat.1 hat.1 (heat.2.trans hat.2.symm)]
    have hmem : d ∈ scanned.filterMap (deviceAt hw s₀ L) :=
      List.mem_filterMap.mpr ⟨f, hf, deviceAt_of_some hstatic⟩
    exact ⟨List.count_eq_one_of_mem hC hmem, List.count_eq_zero.mpr (h.lists.disjoint d hmem)⟩
  · intro d hd hnot
    have hmem : d ∈ leftOver s₀ L scanned := by
      refine mem_leftOver.mpr ⟨hd, ?_⟩
      intro f hf
      by_contra hat
      exact hnot ⟨f, hf, by simpa using hat⟩
    refine ⟨List.count_eq_zero.mpr ?_, List.count_eq_one_of_mem hO hmem⟩
    exact fun hmemC => h.lists.disjoint d hmemC hmem
  · intro d hd hdL
    obtain ⟨f, hf, hdf⟩ := List.mem_filterMap.mp hd
    rcases deviceAt_cases hdf with hstatic | ⟨hstatic, hid, rfl⟩
    · exact absurd (staticAt_some hstatic).1 hdL
    · refine ⟨f, ⟨hf, hid, staticAt_eq_none.mp hstatic, rfl, h.numbered f hf _ hdf⟩, ?_⟩
      rintro g ⟨-, -, -, hg, -⟩
      exact hsetup.malloc_injective hg
  · intro f hf hid hnone
    refine List.mem_filterMap.mpr ⟨f, hf, ?_⟩
    rw [deviceAt_of_none (staticAt_eq_none.mpr hnone), hid, if_neg Bool.false_ne_true]

/-- The scan leaves the bus with its children in order, and with the static devices shared out
between them and those that are left over. The only numbers in range that it passes over are functions
of a slot whose function 0 is absent or alone. -/
theorem pciScanBus_partitions (scanBus : ℕ → ℕ → ℕ) (minDevfn maxDevfn max : ℕ)
    (hsetup : Setup hw s L) (hrounds : L.length + 0x100 < rounds) :
    ∃ s' scanned max' C O,
      pciScanBus hw scanBus rounds minDevfn maxDevfn max s = some (s', scanned, max') ∧
      IsChain s'.sibling s'.children C ∧ IsChain s'.sibling s'.oldDevices O ∧
      (∀ f, f ∈ scanned ↔ (minDevfn ≤ f ∧ f ≤ maxDevfn ∧ f ≤ 0xff) ∧ Visited hw s L minDevfn f) ∧
      Partitioned hw s L s' scanned C O := by
  have hlimit : (if maxDevfn > 0xff then 0xff else maxDevfn) = min maxDevfn 0xff := by
    split_ifs <;> omega
  obtain ⟨s', scanned, hloop, hinv, hasc, hmem⟩ :=
    scanLoop_spec (min maxDevfn 0xff) 0x101 hsetup (.start hsetup)
      (⟨.nil, by simp, by simp⟩ : Numbers minDevfn []) (min_le_right ..) (by omega) hrounds
      (by simp)
  rw [List.nil_append] at hinv hasc
  simp only [le_min_iff] at hmem
  have hlen := length_le_of_ascending hasc fun f hf => ((hmem f).mp hf).1.2.2
  have hC : (scanned.filterMap (deviceAt hw s L)).length < rounds :=
    (List.length_filterMap_le _ _).trans_lt (by omega)
  obtain ⟨max', hchildren⟩ := forChildren_returns scanBus max hinv.lists.children hC
  refine ⟨s', scanned, max', _, _, ?_, hinv.lists.children, hinv.lists.old, hmem,
    hinv.partitioned hsetup hasc⟩
  rw [pciScanBus]
  simp only [hlimit, hloop, Option.bind_some, hchildren, Option.map_some]

/-- A disabled device at 02.0 is declared before one at 00.0, and an undeclared device answers at
03.0. -/
theorem pciScanBus_partitions_unordered :
    let hw : Hardware :=
      { id := fun devfn => if devfn = 0x00 ∨ devfn = 0x18 then 0x15361022 else 0xffffffff
        hdrType := fun _ => 0
        enableDev := fun _ enabled => enabled
        enable := fun _ enabled => enabled
        malloc := fun devfn => devfn + 3 }
    let s : State :=
      { children := 1
        oldDevices := 0
        sibling := fun dev => if dev = 1 then 2 else 0
        isPci := fun _ => true
        devfn := fun dev => if dev = 1 then 0x10 else 0x00
        enabled := fun dev => dev == 2
        hdrType := fun _ => 0 }
    ∃ s' scanned max' C O,
      pciScanBus hw (fun _ max => max) 0x200 0x00 0xff 0 s = some (s', scanned, max') ∧
      IsChain s'.sibling s'.children C ∧ IsChain s'.sibling s'.oldDevices O ∧
      (∀ f, f ∈ scanned ↔ (0x00 ≤ f ∧ f ≤ 0xff ∧ f ≤ 0xff) ∧ Visited hw s [1, 2] 0x00 f) ∧
      Partitioned hw s [1, 2] s' scanned C O := by
  intro hw s
  apply pciScanBus_partitions (fun _ max => max) 0x00 0xff 0 _ (by simp)
  refine ⟨?_, ?_, fun _ => Nat.succ_ne_zero _, ?_, fun f g h => Nat.add_right_cancel h⟩
  · simp [s, IsChain.cons_iff, IsChain.nil_iff]
  · simp [s]
  · intro devfn
    simp [hw]

end ApuBios.PciScan
