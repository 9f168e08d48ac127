import ApuBios.Libpayload.Usb.Basic

/-!
# Descriptors that fit

The descriptors of a device are followed by the lengths that are in them. `set_address` stays inside of
the buffers and of the endpoints exactly if each descriptor that it gets to lies in its buffer, and the
first interface has at most 31 endpoints.
-/

namespace ApuBios.Usb

/-! ### What is to hold -/

/-- No access outside of a descriptor or of the endpoints. -/
def Safe {α : Type} (r : Except Fault α) : Prop := ∀ a, r ≠ .error (.access a)

/-- The endpoint descriptors one behind the other. -/
def endpointAt (cd : List Byte) (endp : ℤ) : ℕ → ℤ
  | 0 => endp
  | j + 1 => endpointAt cd endp j + (byteAt cd (endpointAt cd endp j)).toNat

/-- The place of the first descriptor behind an interface. -/
def behindInterface (cd : List Byte) (current : ℤ) : ℤ := current + (byteAt cd current).toNat

/-- The place of the first endpoint descriptor. -/
def firstEndpointAt (cd : List Byte) (current : ℤ) : ℤ :=
  if byteAt cd (behindInterface cd current + 1) = 5 then
    behindInterface cd current
  else
    behindInterface cd current + (byteAt cd (behindInterface cd current)).toInt

/-- The interface at an offset, the start of what follows it, and its endpoints lie in the buffer, and
there is room for the endpoints. -/
structure InterfaceFits (cd : List Byte) (current : ℤ) : Prop where
  header : Inside cd current 8
  behind : Inside cd (behindInterface cd current) 2
  interval : Inside cd (firstEndpointAt cd current + 6) 1
  count : (byteAt cd (current + 4)).toNat ≤ 31
  endpoints : ∀ j < (byteAt cd (current + 4)).toNat,
    Inside cd (endpointAt cd (firstEndpointAt cd current) j) 7

/-- The buffer with the device descriptor. -/
def deviceBytes (d : Device) : List Byte := descriptorBytes d 1 (descriptorRequest deviceToHost 1 0 0)

/-- The buffer with the configuration descriptor. -/
def configurationBytes (d : Device) : List Byte :=
  descriptorBytes d 3 (descriptorRequest deviceToHost 2 0 0)

/-- The device descriptor has its 18 bytes, and if there is a configuration, its descriptor has its
first bytes, and the first interface and the class of the interface lie in the buffer. -/
structure DescriptorsFit (c : Controller) (dd cd : List Byte) : Prop where
  device : Inside dd 0 18
  configuration : byteAt dd 17 ≠ 0 → Inside cd 0 5
  interface : byteAt dd 17 ≠ 0 → byteAt cd 4 ≠ 0 → InterfaceFits cd (byteAt cd 0).toNat
  value : byteAt dd 17 ≠ 0 → c.finish_device_config = 0 → Inside cd 5 1
  deviceClass : byteAt dd 17 ≠ 0 → c.finish_device_config = 0 → byteAt dd 4 = 0 →
    Inside cd ((byteAt cd 0).toNat + 5) 1

/-- `set_address` of the controller returns an address with an entry. -/
def Addressed (c : Controller) (d : Device) (hci : Hci) (speed hubport hubaddr : ℤ) : Prop :=
  ∃ adr hci' i, c.set_address d hci speed hubport hubaddr = some (adr, hci') ∧ index adr = some i ∧
    (hci' i).isSome

variable {α β : Type} {ε : Type} {buf cd dd : List Byte} {i endp current : ℤ} {n k : ℕ} {dev : Usbdev}

/-! ### Programs that run -/

/-- The program ends without a fault. -/
def Runs (r : Except ε α) : Prop := ∃ a, r = .ok a

@[simp] lemma runs_ok (a : α) : Runs (Except.ok a : Except ε α) := ⟨a, rfl⟩

@[simp] lemma runs_pure (a : α) : Runs (pure a : Except ε α) := ⟨a, rfl⟩

@[simp] lemma not_runs_error (e : ε) : ¬Runs (Except.error e : Except ε α) := by
  rintro ⟨a, h⟩
  cases h

lemma runs_bind {r : Except ε α} {f : α → Except ε β} :
    Runs (r >>= f) ↔ ∃ a, r = .ok a ∧ Runs (f a) := by
  cases r with
  | error e =>
    refine iff_of_false (not_runs_error e) ?_
    rintro ⟨a, h, -⟩
    cases h
  | ok a =>
    constructor
    · intro h
      exact ⟨a, rfl, h⟩
    · rintro ⟨b, hb, h⟩
      cases hb
      exact h

/-- What is read does not decide whether the rest runs. -/
lemma runs_bind_of_forall {r : Except ε α} {f : α → Except ε β} {p : Prop} (h : ∀ a, Runs (f a) ↔ p) :
    Runs (r >>= f) ↔ Runs r ∧ p := by
  rw [runs_bind]
  constructor
  · rintro ⟨a, ha, hf⟩
    exact ⟨⟨a, ha⟩, (h a).mp hf⟩
  · rintro ⟨⟨a, ha⟩, hp⟩
    exact ⟨a, ha, (h a).mpr hp⟩

lemma runs_readByte_bind {f : Byte → Except Access α} :
    Runs (readByte buf i >>= f) ↔ Inside buf i 1 ∧ Runs (f (byteAt buf i)) := by
  rw [readByte]
  split_ifs with h
  · exact ⟨fun hf => ⟨h, hf⟩, fun hf => hf.2⟩
  · exact iff_of_false (not_runs_error _) fun hf => h hf.1

lemma inside_add : Inside buf i (n + k) ↔ Inside buf i n ∧ Inside buf (i + n) k := by
  unfold Inside
  omega

lemma runs_readShort_bind {f : ℕ → Except Access α} :
    Runs (readShort buf i >>= f) ↔ Inside buf i 2 ∧
      Runs (f ((byteAt buf i).toNat + 256 * (byteAt buf (i + 1)).toNat)) := by
  rw [readShort, bind_assoc, runs_readByte_bind, bind_assoc, runs_readByte_bind, ← and_assoc]
  exact and_congr_left' inside_add.symm

/-! ### The loops -/

lemma endpointAt_next (cd : List Byte) (endp : ℤ) (j : ℕ) :
    endpointAt cd (endp + (byteAt cd endp).toNat) j = endpointAt cd endp (j + 1) := by
  induction j with
  | zero => rfl
  | succ j ih =>
    rw [endpointAt, ih]
    rfl

/-- The loop runs if there is room for the endpoints, and their descriptors lie in the buffer. -/
lemma endpointLoop_runs (hdev : dev.num_endp = k) (h : k ≤ 32) :
    Runs (endpointLoop cd n endp dev) ↔
      k + n ≤ 32 ∧ ∀ j < n, Inside cd (endpointAt cd endp j) 7 := by
  induction n generalizing endp dev k with
  | zero =>
    refine iff_of_true (runs_ok _) ⟨h, ?_⟩
    intro j hj
    exact absurd hj (Nat.not_lt_zero j)
  | succ n ih =>
    have hbytes : Inside cd endp 7 ↔ Inside cd (endp + 2) 1 ∧ Inside cd (endp + 4) 2 ∧
        Inside cd (endp + 3) 1 ∧ Inside cd (endp + 6) 1 ∧ Inside cd endp 1 := by
      unfold Inside
      push_cast
      omega
    have hsplit : (∀ j < n + 1, Inside cd (endpointAt cd endp j) 7) ↔
        Inside cd endp 7 ∧ ∀ j < n, Inside cd (endpointAt cd endp (j + 1)) 7 := by
      rw [Nat.forall_lt_succ_left]
      rfl
    rw [endpointLoop, runs_readByte_bind, runs_readShort_bind, runs_readByte_bind,
      runs_readByte_bind, hsplit, hbytes]
    by_cases hroom : dev.num_endp < 32
    · rw [addEndpoint, dif_pos hroom]
      change (_ ∧ _ ∧ _ ∧ _ ∧ Runs (readByte cd endp >>= _)) ↔ _
      rw [runs_readByte_bind, ih (congrArg (· + 1) hdev) (by omega)]
      simp only [endpointAt_next]
      constructor
      · rintro ⟨haddress, hsize, hattributes, hinterval, hlength, hcount, hrest⟩
        exact ⟨by omega, ⟨haddress, hsize, hattributes, hinterval, hlength⟩, hrest⟩
      · rintro ⟨hcount, ⟨haddress, hsize, hattributes, hinterval, hlength⟩, hrest⟩
        exact ⟨haddress, hsize, hattributes, hinterval, hlength, by omega, hrest⟩
    · rw [addEndpoint, dif_neg hroom]
      refine iff_of_false ?_ fun hfits => hroom (by omega)
      rintro ⟨-, -, -, -, hrun⟩
      exact not_runs_error _ hrun

lemma firstEndpoint_runs_bind {f : ℤ → Except Access α} (h : 0 ≤ current) :
    Runs (firstEndpoint cd current >>= f) ↔
      Inside cd current 1 ∧ Inside cd (behindInterface cd current) 2 ∧
        Runs (f (firstEndpointAt cd current)) := by
  have hbehind : Inside cd (behindInterface cd current) 2 ↔
      Inside cd (behindInterface cd current + 1) 1 ∧ Inside cd (behindInterface cd current) 1 := by
    unfold Inside behindInterface
    omega
  have hskip : Inside cd (behindInterface cd current + 1) 1 →
      Inside cd (behindInterface cd current) 1 := by
    unfold Inside behindInterface
    omega
  rw [firstEndpoint, bind_assoc, runs_readByte_bind]
  refine and_congr_right' ?_
  change Runs ((readByte cd (behindInterface cd current + 1) >>= _) >>= f) ↔ _
  rw [bind_assoc, runs_readByte_bind, hbehind, and_assoc]
  refine and_congr_right fun htype => ?_
  rw [firstEndpointAt]
  by_cases hendpoint : byteAt cd (behindInterface cd current + 1) = 5
  · rw [if_neg (not_not.mpr hendpoint), if_pos hendpoint]
    exact (and_iff_right (hskip htype)).symm
  · rw [if_pos hendpoint, if_neg hendpoint, bind_assoc, runs_readByte_bind]
    rfl

lemma interfaceLoop_runs (hdevice : Inside dd 0 18) (h : 0 ≤ current) :
    Runs (interfaceLoop dd cd 1 current dev) ↔ InterfaceFits cd current := by
  have hheader : Inside cd current 8 ↔ Inside cd (current + 2) 1 ∧ Inside cd (current + 4) 1 ∧
      Inside cd (current + 5) 1 ∧ Inside cd (current + 6) 1 ∧ Inside cd (current + 7) 1 ∧
        Inside cd current 1 := by
    unfold Inside
    omega
  have hpacket : Inside dd 7 1 := by
    unfold Inside at hdevice ⊢
    omega
  have hlast : ∀ r : ℤ × Usbdev, Runs (interfaceLoop dd cd 0 r.1 r.2) ↔ True := by
    intro r
    exact iff_true_intro (runs_ok r.2)
  rw [interfaceLoop, debugInterface]
  simp only [bind_assoc, runs_readByte_bind, firstEndpoint_runs_bind h, pure_bind,
    runs_bind_of_forall hlast, and_true]
  rw [endpointLoop_runs (k := 1) rfl (by decide)]
  constructor
  · rintro ⟨hnumber, hcount, hclass, hsubclass, hprotocol, hlength, hbehind, -, hinterval, -, hroom,
      hendpoints⟩
    exact ⟨hheader.mpr ⟨hnumber, hcount, hclass, hsubclass, hprotocol, hlength⟩, hbehind, hinterval,
      by omega, hendpoints⟩
  · rintro ⟨hfits, hbehind, hinterval, hroom, hendpoints⟩
    obtain ⟨hnumber, hcount, hclass, hsubclass, hprotocol, hlength⟩ := hheader.mp hfits
    exact ⟨hnumber, hcount, hclass, hsubclass, hprotocol, hlength, hbehind, hpacket, hinterval, hcount,
      by omega, hendpoints⟩

lemma usbInterfaceCheck_le (vendor device : ℕ) : usbInterfaceCheck vendor device ≤ 1 := by
  have htable : ∀ q ∈ usb_quirks, q.2.2.2 ≤ 1 := by decide
  unfold usbInterfaceCheck
  split
  · exact htable _ (List.mem_of_find?_eq_some ‹_›)
  · exact Nat.zero_le 1

/-- The loop over the interfaces looks at the first one at most. -/
lemma interfaceCount_eq (vendor device n : ℕ) : interfaceCount vendor device n = min n 1 := by
  have hcheck := usbInterfaceCheck_le vendor device
  unfold interfaceCount
  dsimp only
  split_ifs <;> omega

/-! ### The whole function -/

lemma readConfiguration_runs (c : Controller) (d : Device) (hdevice : Inside dd 0 18)
    (idVendor idProduct : ℕ) (dev : Usbdev) :
    Runs (readConfiguration c d dd idVendor idProduct dev) ↔
      Inside (configurationBytes d) 0 5 ∧
        (byteAt (configurationBytes d) 4 ≠ 0 →
          InterfaceFits (configurationBytes d) (byteAt (configurationBytes d) 0).toNat) ∧
        (c.finish_device_config = 0 → Inside (configurationBytes d) 5 1 ∧
          (byteAt dd 4 = 0 →
            Inside (configurationBytes d) ((byteAt (configurationBytes d) 0).toNat + 5) 1)) := by
  obtain ⟨dev', hdev⟩ : ∃ dev', getDescriptor d 3 dev deviceToHost 2 0 0 =
      (dev', configurationBytes d) := ⟨_, rfl⟩
  generalize configurationBytes d = cd at hdev ⊢
  have hhead : Inside cd 0 5 ↔ Inside cd 0 1 ∧ Inside cd 4 1 := by
    unfold Inside
    omega
  have hclass : Inside dd 4 1 := by
    unfold Inside at hdevice ⊢
    omega
  rw [readConfiguration, hdev]
  simp only [runs_readByte_bind, interfaceCount_eq]
  rw [hhead, and_assoc]
  refine and_congr_right' (and_congr_right' ?_)
  have hrest : ∀ dev : Usbdev, Runs (if c.finish_device_config ≠ 0 then pure dev else do
      let _bConfigurationValue ← readByte cd 5
      let bDeviceClass ← readByte dd 4
      let deviceClass ← if bDeviceClass = 0 then readByte cd ((byteAt cd 0).toNat + 5)
        else pure bDeviceClass
      pure { dev with init := classInit c deviceClass } : Except Access Usbdev) ↔
        (c.finish_device_config = 0 → Inside cd 5 1 ∧
          (byteAt dd 4 = 0 → Inside cd ((byteAt cd 0).toNat + 5) 1)) := by
    intro dev
    by_cases hfinish : c.finish_device_config = 0
    · rw [if_neg (not_not.mpr hfinish), runs_readByte_bind, runs_readByte_bind, and_iff_right hclass]
      simp only [hfinish, forall_const]
      refine and_congr_right' ?_
      by_cases hzero : byteAt dd 4 = 0
      · rw [if_pos hzero, runs_readByte_bind]
        simp only [hzero, forall_const, runs_pure, and_true]
      · rw [if_neg hzero, pure_bind]
        exact iff_of_true (runs_pure _) fun h => absurd h hzero
    · rw [if_pos hfinish]
      exact iff_of_true (runs_pure _) fun h => absurd h hfinish
  rw [runs_bind_of_forall hrest]
  refine and_congr_left' ?_
  by_cases hzero : byteAt cd 4 = 0
  · rw [hzero]
    exact iff_of_true (runs_ok _) fun h => absurd rfl h
  · have hcount : min (byteAt cd 4).toNat 1 = 1 := by
      have hpos : (byteAt cd 4).toNat ≠ 0 := fun h => hzero (BitVec.eq_of_toNat_eq h)
      omega
    rw [hcount, interfaceLoop_runs hdevice (by omega)]
    exact ⟨fun h _ => h, fun h => h hzero⟩

lemma readDescriptors_runs (c : Controller) (d : Device) (dev : Usbdev) :
    Runs (readDescriptors c d dev) ↔ DescriptorsFit c (deviceBytes d) (configurationBytes d) := by
  obtain ⟨dev', hdev⟩ : ∃ dev', getDescriptor d 1 dev deviceToHost 1 0 0 = (dev', deviceBytes d) :=
    ⟨_, rfl⟩
  generalize deviceBytes d = dd at hdev ⊢
  have hbytes : Inside dd 0 18 ↔ (Inside dd 8 2 ∧ Inside dd 10 2 ∧ Inside dd 2 2 ∧ Inside dd 17 1) := by
    unfold Inside
    omega
  rw [readDescriptors, hdev]
  simp only [runs_readByte_bind, runs_readShort_bind]
  by_cases hdevice : Inside dd 0 18
  · obtain ⟨hvendor, hproduct, husb, hconfigurations⟩ := hbytes.mp hdevice
    rw [and_iff_right hvendor, and_iff_right hproduct, and_iff_right husb,
      and_iff_right hconfigurations]
    by_cases hzero : byteAt dd 17 = 0
    · rw [if_pos hzero]
      refine iff_of_true (runs_pure _) ⟨hdevice, ?_, ?_, ?_, ?_⟩ <;> exact fun h => absurd hzero h
    · rw [if_neg hzero, runs_bind_of_forall fun dev => iff_true_intro (runs_pure (true, dev)), and_true,
        readConfiguration_runs c d hdevice]
      constructor
      · rintro ⟨hhead, hinterface, hrest⟩
        exact ⟨hdevice, fun _ => hhead, fun _ => hinterface, fun _ h => (hrest h).1,
          fun _ h => (hrest h).2⟩
      · rintro ⟨-, hhead, hinterface, hvalue, hclass⟩
        exact ⟨hhead hzero, hinterface hzero, fun h => ⟨hvalue hzero h, hclass hzero h⟩⟩
  · refine iff_of_false ?_ fun h => hdevice h.device
    rintro ⟨hvendor, hproduct, husb, hconfigurations, -⟩
    exact hdevice (hbytes.mpr ⟨hvendor, hproduct, husb, hconfigurations⟩)

/-- The device behind its address, where `set_address` of the controller has put it. -/
lemma inTable_bind (i : Fin 128) (f : Fin 128 → Except Fault α) : (inTable (some i) >>= f) = f i :=
  rfl

lemma setAddress_of_entry {c : Controller} {d : Device} {hci hci' : Hci} {i : Fin 128}
    {speed hubport hubaddr adr : ℤ}
    (hset : c.set_address d hci speed hubport hubaddr = some (adr, hci')) (hindex : index adr = some i)
    (hentry : hci' i = some dev) :
    setAddress c d hci speed hubport hubaddr =
      ((readDescriptors c d
        { dev with address := adr, hub := hubaddr, port := hubport, speed := speed }).mapError
          .access).map fun r => (if r.1 then adr else -1, Function.update hci' i (some r.2)) := by
  have hadr : ¬adr < 0 := by
    intro hneg
    rw [index, dif_neg fun h => absurd h.1 (by omega)] at hindex
    cases hindex
  unfold setAddress
  rw [hset]
  change (if adr < 0 then _ else inTable (index adr) >>= _) = _
  rw [if_neg hadr, hindex, inTable_bind, hentry]
  rfl

/-- Without an entry there are no descriptors. -/
lemma setAddress_safe_of_not_addressed {c : Controller} {d : Device} {hci : Hci}
    {speed hubport hubaddr : ℤ} (h : ¬Addressed c d hci speed hubport hubaddr) :
    Safe (setAddress c d hci speed hubport hubaddr) := by
  intro a hfault
  unfold setAddress at hfault
  cases hset : c.set_address d hci speed hubport hubaddr with
  | none =>
    rw [hset] at hfault
    cases hfault
  | some r =>
    obtain ⟨adr, hci'⟩ := r
    rw [hset] at hfault
    change (if adr < 0 then _ else inTable (index adr) >>= _) = _ at hfault
    split_ifs at hfault
    · cases hfault
    · cases hindex : index adr with
      | none =>
        rw [hindex] at hfault
        cases hfault
      | some i =>
        rw [hindex, inTable_bind] at hfault
        cases hentry : hci' i with
        | none =>
          rw [hentry] at hfault
          cases hfault
        | some dev => exact h ⟨adr, hci', i, hset, hindex, by rw [hentry]; rfl⟩

lemma safe_map_mapError {r : Except Access α} {f : α → β} :
    Safe ((r.mapError Fault.access).map f) ↔ Runs r := by
  cases r with
  | error a => exact iff_of_false (fun h => h a rfl) (not_runs_error a)
  | ok a => exact iff_of_true (fun _ h => by cases h) (runs_ok a)

/-- `set_address` stays inside of the descriptors and of the endpoints exactly if those of a device that
has got an address fit. -/
theorem setAddress_safe_iff (c : Controller) (d : Device) (hci : Hci) (speed hubport hubaddr : ℤ) :
    Safe (setAddress c d hci speed hubport hubaddr) ↔
      (Addressed c d hci speed hubport hubaddr →
        DescriptorsFit c (deviceBytes d) (configurationBytes d)) := by
  by_cases haddressed : Addressed c d hci speed hubport hubaddr
  · rw [imp_iff_right haddressed]
    obtain ⟨adr, hci', i, hset, hindex, hentry⟩ := haddressed
    obtain ⟨dev, hentry⟩ := Option.isSome_iff_exists.mp hentry
    rw [setAddress_of_entry hset hindex hentry, safe_map_mapError, readDescriptors_runs]
  · exact iff_of_true (setAddress_safe_of_not_addressed haddressed) fun h => absurd h haddressed

/-! ### A short descriptor -/

/-- The memory before anything is stored in it. -/
def blankUsbdev : Usbdev := ⟨fun _ => Endpoint.zero, 0, 0, 0, 0, 0, 0, [], [], .nop⟩

/-- A controller with an empty table. -/
def exampleController : Controller := ⟨true, true, true, genericSetAddress, 0⟩

/-- A device that says its device descriptor has 8 bytes. -/
def shortDevice : Device where
  control _ _ := ⟨0, [8, 1, 0, 2, 0, 0, 0, 8]⟩
  stack _ := 0
  fresh := blankUsbdev

/-- The vendor is read behind the buffer. -/
theorem not_setAddress_safe :
    ¬Safe (setAddress exampleController shortDevice (fun _ => none) 0 1 0) :=
  fun h => h .descriptor rfl

end ApuBios.Usb
