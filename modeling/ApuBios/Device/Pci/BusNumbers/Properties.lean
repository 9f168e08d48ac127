import ApuBios.Device.Pci.BusNumbers.Basic

/-!
# The numbers after a scan

The buses behind the bridges are numbered as they are met, however often a bus is scanned again, so
that what a bridge forwards contains what the bridges below it forward (`Forest.Numbered`).
-/

namespace ApuBios.PciBus

variable {s s' t u : State} {b c : Bridge} {f g : Forest Bridge} {parent rounds n m : ℕ}

/-! ### The register of a bridge -/

/-- The register has the three numbers. -/
structure HasNumbers (register primary secondary subordinate : ℕ) : Prop where
  primary : register &&& 0xff = primary
  secondary : register >>> 8 &&& 0xff = secondary
  subordinate : register >>> 16 &&& 0xff = subordinate

lemma testBit_eq_false {v i : ℕ} (hv : v ≤ 0xff) (hi : 8 ≤ i) : v.testBit i = false := by
  have hlt : v < 2 ^ 8 := Nat.lt_succ_of_le hv
  exact Nat.testBit_lt_two_pow (hlt.trans_le (Nat.pow_le_pow_right two_pos hi))

lemma shiftRight_and_eq {x k v : ℕ} (hv : v ≤ 0xff)
    (h : ∀ i < 8, x.testBit (k + i) = v.testBit i) : x >>> k &&& 0xff = v := by
  apply Nat.eq_of_testBit_eq
  intro i
  rw [Nat.testBit_and, Nat.testBit_shiftRight, show 0xff = 2 ^ 8 - 1 from rfl,
    Nat.testBit_two_pow_sub_one]
  by_cases hi : i < 8
  · rw [h i hi, decide_eq_true hi, Bool.and_true]
  · rw [decide_eq_false hi, Bool.and_false, testBit_eq_false hv (not_lt.mp hi)]

lemma testBit_upper : ∀ i < 24, Nat.testBit 0xff000000 i = false := by decide

lemma testBit_keep : ∀ i < 24, Nat.testBit 0xff00ffff i = decide (i < 16) := by decide

lemma hasNumbers {x p sec sub : ℕ} (hp : p ≤ 0xff) (hsec : sec ≤ 0xff) (hsub : sub ≤ 0xff) :
    HasNumbers ((((x &&& 0xff000000) ||| (p <<< 0 ||| sec <<< 8 ||| 0xff <<< 16)) &&& 0xff00ffff) |||
      sub <<< 16) p sec sub := by
  refine ⟨?_, ?_, ?_⟩
  · rw [← Nat.shiftRight_zero (n := _ ||| _)]
    apply shiftRight_and_eq hp
    intro i hi
    simp only [Nat.testBit_or, Nat.testBit_and, Nat.testBit_shiftLeft, Nat.zero_add]
    rw [testBit_upper i (by omega), testBit_keep i (by omega)]
    simp [show ¬8 ≤ i by omega, show ¬16 ≤ i by omega, show i < 16 by omega]
  · apply shiftRight_and_eq hsec
    intro i hi
    simp only [Nat.testBit_or, Nat.testBit_and, Nat.testBit_shiftLeft]
    rw [testBit_upper (8 + i) (by omega), testBit_keep (8 + i) (by omega)]
    simp [show ¬16 ≤ 8 + i by omega, show 8 + i < 16 by omega,
      testBit_eq_false hp (show 8 ≤ 8 + i by omega)]
  · apply shiftRight_and_eq hsub
    intro i hi
    simp only [Nat.testBit_or, Nat.testBit_and, Nat.testBit_shiftLeft]
    rw [testBit_keep (16 + i) (by omega)]
    simp

/-! ### What a scan leaves -/

/-- The bridges of a bus. -/
def Children.forest : Children → Forest Bridge
  | .nil => .nil
  | .device sibling => sibling.forest
  | .bridge b children sibling => .node b children.forest sibling.forest

/-- Nothing but the numbers of the bridges is changed. -/
structure Frame (f : Forest Bridge) (s s' : State) : Prop where
  secondary : ∀ bus, bus ∉ f.labels.map Bridge.bus → s'.secondary bus = s.secondary bus
  subordinate : ∀ bus, bus ∉ f.labels.map Bridge.bus → s'.subordinate bus = s.subordinate bus
  primaryBus : ∀ dev, dev ∉ f.labels.map Bridge.dev → s'.primaryBus dev = s.primaryBus dev
  command : s'.command = s.command

lemma Frame.refl : Frame f s s := ⟨fun _ _ => rfl, fun _ _ => rfl, fun _ _ => rfl, rfl⟩

lemma Frame.trans (h : Frame f s t) (h' : Frame f t u) : Frame f s u :=
  ⟨fun bus hbus => (h'.secondary bus hbus).trans (h.secondary bus hbus),
    fun bus hbus => (h'.subordinate bus hbus).trans (h.subordinate bus hbus),
    fun dev hdev => (h'.primaryBus dev hdev).trans (h.primaryBus dev hdev),
    h'.command.trans h.command⟩

lemma Frame.mono (h : Frame f s s') (hsub : f.labels ⊆ g.labels) : Frame g s s' :=
  ⟨fun bus hbus => h.secondary bus fun hmem => hbus (List.map_subset _ hsub hmem),
    fun bus hbus => h.subordinate bus fun hmem => hbus (List.map_subset _ hsub hmem),
    fun dev hdev => h.primaryBus dev fun hmem => hdev (List.map_subset _ hsub hmem), h.command⟩

/-- The register of the bridge has the numbers of its buses. -/
def Register (s : State) (parent : ℕ) (b : Bridge) : Prop :=
  HasNumbers (s.primaryBus b.dev) (s.secondary parent) (s.secondary b.bus) (s.subordinate b.bus)

/-- This holds for each bridge, where `parent` is the bus that the forest is on. -/
def Registers (s : State) : ℕ → Forest Bridge → Prop
  | _, .nil => True
  | parent, .node b children sibling =>
    Register s parent b ∧ Registers s b.bus children ∧ Registers s parent sibling

/-- The buses are numbered from `n + 1`. -/
def NumberedFrom (s : State) (n : ℕ) (f : Forest Bridge) : Prop :=
  f.Numbered (fun b => s.secondary b.bus) (fun b => s.subordinate b.bus) n

/-- All bridges and their buses are different. -/
structure Distinct (f : Forest Bridge) : Prop where
  buses : (f.labels.map Bridge.bus).Nodup
  devs : (f.labels.map Bridge.dev).Nodup

lemma Registers.congr (h : Registers s parent f) (hparent : s'.secondary parent = s.secondary parent)
    (hsec : ∀ b ∈ f.labels, s'.secondary b.bus = s.secondary b.bus)
    (hsub : ∀ b ∈ f.labels, s'.subordinate b.bus = s.subordinate b.bus)
    (hreg : ∀ b ∈ f.labels, s'.primaryBus b.dev = s.primaryBus b.dev) : Registers s' parent f := by
  induction f generalizing parent with
  | nil => trivial
  | node b children sibling ihc ihs =>
    simp only [Forest.labels, List.forall_mem_cons, List.forall_mem_append] at hsec hsub hreg
    obtain ⟨hb, hc, hs⟩ := h
    refine ⟨?_, ihc hc hsec.1 hsec.2.1 hsub.2.1 hreg.2.1, ihs hs hparent hsec.2.2 hsub.2.2 hreg.2.2⟩
    rw [Register, hreg.1, hparent, hsec.1, hsub.1]
    exact hb

section Distinct

variable {children sibling : Forest Bridge}

lemma Distinct.node_iff :
    Distinct (.node b children sibling) ↔
      (∀ c ∈ children.labels ++ sibling.labels, c.bus ≠ b.bus ∧ c.dev ≠ b.dev) ∧
      Distinct children ∧ Distinct sibling ∧
      ∀ c ∈ children.labels, ∀ d ∈ sibling.labels, c.bus ≠ d.bus ∧ c.dev ≠ d.dev := by
  constructor
  · rintro ⟨hbuses, hdevs⟩
    simp only [Forest.labels, List.map_cons, List.map_append, List.nodup_cons, List.nodup_append,
      List.mem_append, List.mem_map, not_or, not_exists, not_and] at hbuses hdevs
    refine ⟨?_, ⟨hbuses.2.1, hdevs.2.1⟩, ⟨hbuses.2.2.1, hdevs.2.2.1⟩, ?_⟩
    · intro c hc
      rcases List.mem_append.mp hc with hc | hc
      · exact ⟨hbuses.1.1 c hc, hdevs.1.1 c hc⟩
      · exact ⟨hbuses.1.2 c hc, hdevs.1.2 c hc⟩
    · intro c hc d hd
      exact ⟨hbuses.2.2.2 _ ⟨c, hc, rfl⟩ _ ⟨d, hd, rfl⟩, hdevs.2.2.2 _ ⟨c, hc, rfl⟩ _ ⟨d, hd, rfl⟩⟩
  · rintro ⟨hb, hc, hs, hcs⟩
    simp only [List.forall_mem_append] at hb
    constructor
    · simp only [Forest.labels, List.map_cons, List.map_append, List.nodup_cons, List.nodup_append,
        List.mem_append, List.mem_map, not_or, not_exists, not_and]
      refine ⟨⟨fun c hc => (hb.1 c hc).1, fun c hc => (hb.2 c hc).1⟩, hc.buses, hs.buses, ?_⟩
      rintro _ ⟨c, hc, rfl⟩ _ ⟨d, hd, rfl⟩
      exact (hcs c hc d hd).1
    · simp only [Forest.labels, List.map_cons, List.map_append, List.nodup_cons, List.nodup_append,
        List.mem_append, List.mem_map, not_or, not_exists, not_and]
      refine ⟨⟨fun c hc => (hb.1 c hc).2, fun c hc => (hb.2 c hc).2⟩, hc.devs, hs.devs, ?_⟩
      rintro _ ⟨c, hc, rfl⟩ _ ⟨d, hd, rfl⟩
      exact (hcs c hc d hd).2

end Distinct

/-- A bus has been scanned, with `n` as the last number that was in use. -/
structure Scanned (parent n : ℕ) (f : Forest Bridge) (s s' : State) : Prop where
  frame : Frame f s s'
  numbered : NumberedFrom s' n f
  registers : Registers s' parent f

/-! ### Rescans -/

/-- The reset of buses changes no numbers. -/
lemma resetLinks_state (b : Bridge) (parent : ℕ) (links : List ℕ) (s : State) (doScanBus : Bool) :
    ∃ r, (resetLinks b parent links (s, doScanBus)).1 = { s with resetNeeded := r } := by
  induction links generalizing s doScanBus with
  | nil => exact ⟨_, rfl⟩
  | cons link links ih =>
    rw [resetLinks]
    split_ifs with hneeded
    · rw [resetBus]
      split_ifs with hreset
      · exact ih (s.setResetNeeded link false) true
      · exact ih (s.setResetNeeded parent true) doScanBus
    · exact ih s doScanBus

/-- What holds after each scan of a bus holds after the last. -/
lemma scanBus_spec {ops : State → ℕ → Option (State × ℕ)} {P : State → Prop}
    {Q : State → ℕ → Prop} (hops : ∀ u, P u → ∀ u' m, ops u n = some (u', m) → P u' ∧ Q u' m)
    (hP : ∀ u r, P u → P { u with resetNeeded := r })
    (hQ : ∀ u r m, Q u m → Q { u with resetNeeded := r } m) (hs : P s)
    (h : scanBus b parent ops rounds s n = some (t, m)) : P t ∧ Q t m := by
  induction rounds generalizing s with
  | zero => exact absurd h (by simp [scanBus])
  | succ rounds ih =>
    rw [scanBus, Option.bind_eq_some_iff] at h
    obtain ⟨⟨u, k⟩, hu, h⟩ := h
    obtain ⟨hPu, hQu⟩ := hops s hs u k hu
    obtain ⟨r, hr⟩ := resetLinks_state b parent (b.bus :: b.links) u false
    dsimp only at h
    rw [hr] at h
    split_ifs at h
    · exact ih (hP u r hPu) h
    · rw [Option.some.injEq, Prod.mk.injEq] at h
      obtain ⟨rfl, rfl⟩ := h
      exact ⟨hP u r hPu, hQ u r k hQu⟩

/-! ### The step of the scan -/

/-- What is found on a bus changes no numbers. -/
lemma probe_eq (s : State) :
    s.probe.secondary = s.secondary ∧ s.probe.subordinate = s.subordinate ∧
      s.probe.primaryBus = s.primaryBus ∧ s.probe.command = s.command := by
  rw [State.probe]
  cases s.requests with
  | nil => exact ⟨rfl, rfl, rfl, rfl⟩
  | cons request requests => exact ⟨rfl, rfl, rfl, rfl⟩

lemma frame_probe : Frame f s s.probe := by
  obtain ⟨hsec, hsub, hreg, hcmd⟩ := probe_eq s
  exact ⟨fun _ _ => congrFun hsec _, fun _ _ => congrFun hsub _, fun _ _ => congrFun hreg _, hcmd⟩

/-- What `do_pci_scan_bridge` has written before it scans the bus behind the bridge. -/
structure Opened (parent n : ℕ) (b : Bridge) (s u : State) (buses : ℕ) : Prop where
  secondary : u.secondary = Function.update s.secondary b.bus (n + 1)
  subordinate : u.subordinate = Function.update s.subordinate b.bus 0xff
  command : u.command = Function.update s.command b.dev 0
  primaryBus : u.primaryBus = Function.update s.primaryBus b.dev buses
  buses : buses = (s.primaryBus b.dev &&& 0xff000000) |||
    (s.secondary parent <<< 0 ||| (n + 1) <<< 8 ||| 0xff <<< 16)

/-- What it has written after that. -/
structure Closed (n : ℕ) (b : Bridge) (s u t : State) (buses : ℕ) : Prop where
  secondary : t.secondary = u.secondary
  subordinate : t.subordinate = Function.update u.subordinate b.bus n
  command : t.command = Function.update u.command b.dev (s.command b.dev)
  primaryBus : t.primaryBus =
    Function.update u.primaryBus b.dev ((buses &&& 0xff00ffff) ||| n <<< 16)

lemma doPciScanBridge_eq {doScanBus : State → ℕ → Option (State × ℕ)} (hparent : parent ≠ b.bus)
    (hn : n + 1 ≤ 0xff)
    (h : doPciScanBridge b parent doScanBus s n = some (t, m)) (hm : ∀ u u' k,
      doScanBus u (n + 1) = some (u', k) → u.secondary b.bus = n + 1 → k ≤ 0xff) :
    ∃ u u' buses, doScanBus u (n + 1) = some (u', m) ∧ Opened parent n b s u buses ∧
      Closed m b s u' t buses := by
  rw [doPciScanBridge, Option.map_eq_some_iff] at h
  obtain ⟨⟨u', k⟩, hu', h⟩ := h
  dsimp only at hu' h
  rw [Prod.mk.injEq] at h
  obtain ⟨rfl, rfl⟩ := h
  have hmod : (n + 1) % 0x10000 = n + 1 := Nat.mod_eq_of_lt (by omega)
  have hk : k % 0x10000 = k := by
    have := hm _ _ _ hu' (by
      simp only [State.setPrimaryBus, State.setCommand, State.setSubordinate, State.setSecondary,
        Function.update_self, hmod])
    exact Nat.mod_eq_of_lt (by omega)
  refine ⟨_, u', _, hu', ⟨?_, rfl, rfl, rfl, ?_⟩, ⟨rfl, ?_, rfl, ?_⟩⟩
  · simp only [State.setPrimaryBus, State.setCommand, State.setSubordinate, State.setSecondary, hmod]
  · simp only [State.setCommand, State.setSubordinate, State.setSecondary, hmod,
      Function.update_self, Function.update_of_ne hparent]
  · simp only [State.setPrimaryBus, State.setCommand, State.setSubordinate, hk]
  · simp only [State.setPrimaryBus, State.setCommand, State.setSubordinate, hk,
      Function.update_self]

/-- A bridge takes the next number and then those behind it are scanned. -/
lemma doPciScanBridge_spec {children : Forest Bridge} {doScanBus : State → ℕ → Option (State × ℕ)}
    (hd : Distinct (.node b children .nil))
    (hparent : ∀ c ∈ (Forest.node b children .nil).labels, c.bus ≠ parent)
    (hsec : s.secondary parent ≤ 0xff) (hn : n + 1 + children.size ≤ 0xff)
    (hscan : ∀ u, u.secondary b.bus = n + 1 → ∀ u' k, doScanBus u (n + 1) = some (u', k) →
      Scanned b.bus (n + 1) children u u' ∧ k = n + 1 + children.size)
    (h : doPciScanBridge b parent doScanBus s n = some (t, m)) :
    Scanned parent n (.node b children .nil) s t ∧ m = n + 1 + children.size := by
  obtain ⟨hb, -, -, -⟩ := Distinct.node_iff.mp hd
  simp only [Forest.labels, List.append_nil] at hb
  have hparentb : parent ≠ b.bus := (hparent b (by simp [Forest.labels])).symm
  obtain ⟨u, u', buses, hu', hopened, hclosed⟩ := doPciScanBridge_eq hparentb (by omega) h
    fun u u' k hk hu => (hscan u hu u' k hk).2 ▸ hn
  have husec : u.secondary b.bus = n + 1 := by rw [hopened.secondary, Function.update_self]
  obtain ⟨hscanned, rfl⟩ := hscan u husec u' m hu'
  have hbus : b.bus ∉ children.labels.map Bridge.bus := by
    simpa using fun c hc => (hb c hc).1
  have hdev : b.dev ∉ children.labels.map Bridge.dev := by
    simpa using fun c hc => (hb c hc).2
  have htsec : t.secondary b.bus = n + 1 := by
    rw [hclosed.secondary, hscanned.frame.secondary _ hbus, husec]
  have htsub : t.subordinate b.bus = n + 1 + children.size := by
    rw [hclosed.subordinate, Function.update_self]
  have hframe : Frame (.node b children .nil) s t := by
    have hlabels : (Forest.node b children .nil).labels = b :: children.labels := by
      rw [Forest.labels, Forest.labels, List.append_nil]
    refine ⟨?_, ?_, ?_, ?_⟩
    · intro bus hbus
      rw [hlabels, List.map_cons, List.mem_cons, not_or] at hbus
      rw [hclosed.secondary, hscanned.frame.secondary _ hbus.2, hopened.secondary,
        Function.update_of_ne hbus.1]
    · intro bus hbus
      rw [hlabels, List.map_cons, List.mem_cons, not_or] at hbus
      rw [hclosed.subordinate, Function.update_of_ne hbus.1,
        hscanned.frame.subordinate _ hbus.2, hopened.subordinate, Function.update_of_ne hbus.1]
    · intro dev hdev
      rw [hlabels, List.map_cons, List.mem_cons, not_or] at hdev
      rw [hclosed.primaryBus, Function.update_of_ne hdev.1,
        hscanned.frame.primaryBus _ hdev.2, hopened.primaryBus, Function.update_of_ne hdev.1]
    · rw [hclosed.command, hscanned.frame.command, hopened.command, Function.update_idem,
        Function.update_eq_self]
  refine ⟨⟨hframe, ⟨htsec, htsub, ?_, trivial⟩, ?_, ?_, trivial⟩, rfl⟩
  · apply hscanned.numbered.congr
    · intro c _
      rw [hclosed.secondary]
    · intro c hc
      rw [hclosed.subordinate, Function.update_of_ne (hb c hc).1]
  · have htparent : t.secondary parent = s.secondary parent := by
      apply hframe.secondary
      simpa using hparent
    rw [Register, htparent, htsec, htsub, hclosed.primaryBus, Function.update_self, hopened.buses]
    exact hasNumbers hsec (by omega) hn
  · apply hscanned.registers.congr
    · rw [hclosed.secondary]
    · intro c _
      rw [hclosed.secondary]
    · intro c hc
      rw [hclosed.subordinate, Function.update_of_ne (hb c hc).1]
    · intro c hc
      rw [hclosed.primaryBus, Function.update_of_ne (hb c hc).2]

/-- The bus behind a bridge is scanned until no reset is needed. -/
lemma scanBus_bridge_spec {children : Forest Bridge} {doScanBus : State → ℕ → Option (State × ℕ)}
    (hd : Distinct (.node b children .nil))
    (hparent : ∀ c ∈ (Forest.node b children .nil).labels, c.bus ≠ parent)
    (hsec : s.secondary parent ≤ 0xff) (hn : n + 1 + children.size ≤ 0xff)
    (hscan : ∀ u, u.secondary b.bus = n + 1 → ∀ u' k, doScanBus u (n + 1) = some (u', k) →
      Scanned b.bus (n + 1) children u u' ∧ k = n + 1 + children.size)
    (h : scanBus b parent (doPciScanBridge b parent doScanBus) rounds s n = some (t, m)) :
    Scanned parent n (.node b children .nil) s t ∧ m = n + 1 + children.size := by
  have hops : ∀ u, Frame (.node b children .nil) s u → ∀ u' k,
      doPciScanBridge b parent doScanBus u n = some (u', k) →
      Frame (.node b children .nil) s u' ∧ (NumberedFrom u' n (.node b children .nil) ∧
        Registers u' parent (.node b children .nil) ∧ k = n + 1 + children.size) := by
    intro u hu u' k hk
    have husec : u.secondary parent ≤ 0xff := by
      rw [hu.secondary]
      · exact hsec
      · simpa using hparent
    obtain ⟨hscanned, heq⟩ := doPciScanBridge_spec hd hparent husec hn hscan hk
    exact ⟨hu.trans hscanned.frame, hscanned.numbered, hscanned.registers, heq⟩
  obtain ⟨hframe, hnum, hregs, heq⟩ := scanBus_spec hops
    (fun _ _ hu => ⟨hu.secondary, hu.subordinate, hu.primaryBus, hu.command⟩)
    (fun _ _ _ hu => ⟨hu.1, hu.2.1.congr rfl (fun _ _ => rfl) (fun _ _ => rfl) (fun _ _ => rfl),
      hu.2.2⟩) .refl h
  exact ⟨⟨hframe, hnum, hregs⟩, heq⟩

/-- Two parts of a bus that are scanned one after the other. -/
lemma Scanned.append {children sibling : Forest Bridge} (hd : Distinct (.node b children sibling))
    (hparent : ∀ c ∈ (Forest.node b children sibling).labels, c.bus ≠ parent)
    (hb : Scanned parent n (.node b children .nil) s t)
    (hs : Scanned parent (n + 1 + children.size) sibling t u) :
    Scanned parent n (.node b children sibling) s u := by
  obtain ⟨hother, -, -, hcs⟩ := Distinct.node_iff.mp hd
  simp only [List.forall_mem_append] at hother
  have hkept : ∀ c ∈ b :: children.labels, u.secondary c.bus = t.secondary c.bus ∧
      u.subordinate c.bus = t.subordinate c.bus ∧ u.primaryBus c.dev = t.primaryBus c.dev := by
    intro c hc
    have hne : ∀ d ∈ sibling.labels, d.bus ≠ c.bus ∧ d.dev ≠ c.dev := by
      intro d hmem
      rcases List.mem_cons.mp hc with rfl | hc
      · exact hother.2 d hmem
      · exact ⟨(hcs c hc d hmem).1.symm, (hcs c hc d hmem).2.symm⟩
    have hbus : c.bus ∉ sibling.labels.map Bridge.bus := by
      simpa using fun d hd => (hne d hd).1
    have hdev : c.dev ∉ sibling.labels.map Bridge.dev := by
      simpa using fun d hd => (hne d hd).2
    exact ⟨hs.frame.secondary _ hbus, hs.frame.subordinate _ hbus, hs.frame.primaryBus _ hdev⟩
  rw [List.forall_mem_cons] at hkept
  have hparent' : u.secondary parent = t.secondary parent := by
    apply hs.frame.secondary
    simp only [List.mem_map, not_exists, not_and]
    intro c hc
    exact hparent c (by simp [Forest.labels, hc])
  obtain ⟨hlo, hhi, hnum, -⟩ := hb.numbered
  obtain ⟨hreg, hregs, -⟩ := hb.registers
  refine ⟨?_, ⟨?_, ?_, ?_, hs.numbered⟩, ?_, ?_, hs.registers⟩
  · refine (hb.frame.mono ?_).trans (hs.frame.mono ?_)
    · intro c hc
      simp only [Forest.labels, List.append_nil, List.mem_cons, List.mem_append] at hc ⊢
      exact hc.imp_right .inl
    · intro c hc
      simp [Forest.labels, hc]
  · exact hkept.1.1.trans hlo
  · exact hkept.1.2.1.trans hhi
  · exact hnum.congr (fun c hc => (hkept.2 c hc).1) fun c hc => (hkept.2 c hc).2.1
  · rw [Register, hkept.1.1, hkept.1.2.1, hkept.1.2.2, hparent']
    exact hreg
  · exact hregs.congr hkept.1.1 (fun c hc => (hkept.2 c hc).1) (fun c hc => (hkept.2 c hc).2.1)
      fun c hc => (hkept.2 c hc).2.2

lemma scanChildren_spec (children : Children) (hd : Distinct children.forest)
    (hparent : ∀ c ∈ children.forest.labels, c.bus ≠ parent) (hsec : s.secondary parent ≤ 0xff)
    (hn : n + children.forest.size ≤ 0xff)
    (h : scanChildren rounds parent children s n = some (t, m)) :
    Scanned parent n children.forest s t ∧ m = n + children.forest.size := by
  induction children generalizing parent n s t m with
  | nil =>
    rw [scanChildren, Option.some.injEq, Prod.mk.injEq] at h
    obtain ⟨rfl, rfl⟩ := h
    exact ⟨⟨.refl, trivial, trivial⟩, rfl⟩
  | device sibling ih => exact ih hd hparent hsec hn h
  | bridge b children sibling ihc ihs =>
    rw [scanChildren, Option.bind_eq_some_iff] at h
    obtain ⟨⟨u, k⟩, hu, h⟩ := h
    obtain ⟨hother, hdc, hds, hcs⟩ := Distinct.node_iff.mp hd
    simp only [List.forall_mem_append] at hother
    have hdb : Distinct (.node b children.forest .nil) := by
      refine Distinct.node_iff.mpr ⟨?_, hdc, ⟨.nil, .nil⟩, by simp [Forest.labels]⟩
      simpa [Forest.labels] using hother.1
    have hsize : n + 1 + children.forest.size + sibling.forest.size ≤ 0xff := by
      simp only [Children.forest, Forest.size] at hn
      omega
    have hparents := hparent
    simp only [Children.forest, Forest.labels, List.forall_mem_cons, List.forall_mem_append]
      at hparents
    have hscan : ∀ w, w.secondary b.bus = n + 1 → ∀ w' i,
        scanChildren rounds b.bus children w.probe (n + 1) = some (w', i) →
        Scanned b.bus (n + 1) children.forest w w' ∧ i = n + 1 + children.forest.size := by
      intro w hw w' i hi
      have hprobe : w.probe.secondary b.bus ≤ 0xff := by
        rw [(probe_eq w).1, hw]
        omega
      obtain ⟨hscanned, heq⟩ :=
        ihc hdc (fun c hc => (hother.1 c hc).1) hprobe (by omega) hi
      exact ⟨⟨frame_probe.trans hscanned.frame, hscanned.numbered, hscanned.registers⟩, heq⟩
    obtain ⟨hb, rfl⟩ := scanBus_bridge_spec hdb
      (by simpa [Forest.labels] using ⟨hparents.1, hparents.2.1⟩) hsec (by omega) hscan hu
    have husec : u.secondary parent ≤ 0xff := by
      rw [hb.frame.secondary]
      · exact hsec
      · simpa [Forest.labels] using ⟨Ne.symm hparents.1, hparents.2.1⟩
    obtain ⟨hs, rfl⟩ := ihs hds hparents.2.2 husec hsize h
    refine ⟨hb.append hd hparent hs, ?_⟩
    simp only [Children.forest, Forest.size]
    omega

/-! ### The end of the scan -/

/-- No more requests are to come, and once there are none no flag is set. -/
structure Quieter (s t : State) : Prop where
  requests : t.requests.length ≤ s.requests.length
  resetNeeded : s.requests = [] → ∀ bus, t.resetNeeded bus = true → s.resetNeeded bus = true

lemma Quieter.nil (h : Quieter s t) (hs : s.requests = []) : t.requests = [] := by
  have hlen := h.requests
  rw [hs, List.length_nil, Nat.le_zero, List.length_eq_zero_iff] at hlen
  exact hlen

lemma Quieter.trans (h : Quieter s t) (h' : Quieter t u) : Quieter s u :=
  ⟨h'.requests.trans h.requests, fun hs bus hbus =>
    h.resetNeeded hs bus (h'.resetNeeded (h.nil hs) bus hbus)⟩

lemma quieter_probe : Quieter s s.probe := by
  cases hs : s.requests with
  | nil =>
    have hprobe : s.probe = s := by simp only [State.probe, hs]
    rw [hprobe]
    exact ⟨le_rfl, fun _ _ hbus => hbus⟩
  | cons request requests =>
    refine ⟨?_, fun hnil => absurd (hs ▸ hnil) (by simp)⟩
    simp [State.probe, hs]

lemma length_requests_probe (hs : s.requests ≠ []) :
    s.probe.requests.length < s.requests.length := by
  obtain ⟨request, requests, hcons⟩ := List.exists_cons_of_ne_nil hs
  simp [State.probe, hcons]

/-- All flags of the links are cleared. -/
lemma resetLinks_eq (hreset : b.hasResetBus = true) (links : List ℕ) (s : State)
    (doScanBus : Bool) :
    resetLinks b parent links (s, doScanBus) =
      ({ s with resetNeeded := fun bus => s.resetNeeded bus && !links.contains bus },
        doScanBus || links.any s.resetNeeded) := by
  induction links generalizing s doScanBus with
  | nil => simp [resetLinks]
  | cons link links ih =>
    rw [resetLinks]
    by_cases hneeded : s.resetNeeded link = true
    · rw [if_pos hneeded, resetBus, if_pos hreset]
      refine (ih _ _).trans ?_
      rw [Prod.mk.injEq]
      constructor
      · simp only [State.setResetNeeded, State.mk.injEq, true_and, and_true]
        funext bus
        by_cases hbus : bus = link
        · simp [hbus]
        · simp [hbus]
      · simp [hneeded]
    · rw [if_neg hneeded, ih, Prod.mk.injEq]
      constructor
      · simp only [State.mk.injEq, true_and, and_true]
        funext bus
        by_cases hbus : bus = link
        · simp [hbus, hneeded]
        · simp [hbus]
      · simp [hneeded]

lemma doPciScanBridge_returns {doScanBus : State → ℕ → Option (State × ℕ)}
    (h : ∀ u, u.requests = s.requests → u.resetNeeded = s.resetNeeded →
      ∃ t m, doScanBus u (n + 1) = some (t, m) ∧ Quieter u t ∧
        (u.requests ≠ [] → t.requests.length < u.requests.length)) :
    ∃ t m, doPciScanBridge b parent doScanBus s n = some (t, m) ∧ Quieter s t ∧
      (s.requests ≠ [] → t.requests.length < s.requests.length) := by
  rw [doPciScanBridge]
  dsimp only
  generalize hu : State.setPrimaryBus _ _ _ = u
  have hrequests : u.requests = s.requests := by
    rw [← hu]
    rfl
  have hresetNeeded : u.resetNeeded = s.resetNeeded := by
    rw [← hu]
    rfl
  obtain ⟨t, m, ht, hquiet, hlt⟩ := h u hrequests hresetNeeded
  rw [ht, Option.map_some]
  refine ⟨_, _, rfl, ⟨?_, ?_⟩, ?_⟩
  · exact hrequests ▸ hquiet.requests
  · intro hs bus hbus
    rw [← hresetNeeded]
    exact hquiet.resetNeeded (hrequests.trans hs) bus hbus
  · intro hs
    rw [← hrequests] at hs ⊢
    exact hlt hs

section Ops

variable {ops : State → ℕ → Option (State × ℕ)} {k : ℕ}

/-- Without a flag and without requests to come one scan is enough. -/
lemma scanBus_of_quiet (parent rounds : ℕ) (hreset : b.hasResetBus = true)
    (hops : ∃ t m, ops s n = some (t, m) ∧ Quieter s t) (hs : s.requests = [])
    (hflags : ∀ link ∈ b.bus :: b.links, s.resetNeeded link = false) :
    ∃ t m, scanBus b parent ops (rounds + 1) s n = some (t, m) ∧ Quieter s t := by
  obtain ⟨t, m, ht, hquiet⟩ := hops
  have hnone : (b.bus :: b.links).any t.resetNeeded = false := by
    rw [List.any_eq_false]
    intro link hlink hset
    have hset' := hquiet.resetNeeded hs link hset
    rw [hflags link hlink] at hset'
    exact Bool.false_ne_true hset'
  rw [scanBus, ht, Option.bind_some]
  dsimp only
  rw [resetLinks_eq hreset, Bool.false_or, hnone, if_neg Bool.false_ne_true]
  refine ⟨_, _, rfl, hquiet.requests, ?_⟩
  intro _ bus hbus
  exact hquiet.resetNeeded hs bus (Bool.and_eq_true_iff.mp hbus).1

/-- A bus is scanned at most twice after the last request. -/
lemma scanBus_returns (parent : ℕ) (hreset : b.hasResetBus = true)
    (hops : ∀ u, u.requests.length ≤ k → ∃ t m, ops u n = some (t, m) ∧ Quieter u t ∧
      (u.requests ≠ [] → t.requests.length < u.requests.length))
    (hs : s.requests.length ≤ k) (hrounds : s.requests.length + 2 ≤ rounds) :
    ∃ t m, scanBus b parent ops rounds s n = some (t, m) ∧ Quieter s t := by
  induction rounds generalizing s with
  | zero => exact absurd hrounds (by omega)
  | succ rounds ih =>
    obtain ⟨t, m, ht, hquiet, hlt⟩ := hops s hs
    rw [scanBus, ht, Option.bind_some]
    dsimp only
    rw [resetLinks_eq hreset, Bool.false_or]
    generalize hv : ({ t with resetNeeded := _ } : State) = v
    have hrequests : v.requests = t.requests := by rw [← hv]
    have hquiet' : Quieter s v := by
      refine ⟨hrequests ▸ hquiet.requests, ?_⟩
      intro hnil bus hbus
      rw [← hv] at hbus
      exact hquiet.resetNeeded hnil bus (Bool.and_eq_true_iff.mp hbus).1
    split_ifs
    · by_cases hnil : s.requests = []
      · -- the flags have been cleared, and there is one more round
        obtain ⟨rounds, rfl⟩ := Nat.exists_eq_succ_of_ne_zero (show rounds ≠ 0 by omega)
        have hvk : v.requests.length ≤ k := hquiet'.requests.trans hs
        obtain ⟨w, j, hw, hquietw, -⟩ := hops v hvk
        have hflags : ∀ link ∈ b.bus :: b.links, v.resetNeeded link = false := by
          intro link hlink
          rw [← hv]
          simp [hlink]
        obtain ⟨w', j', hw', hquietw'⟩ := scanBus_of_quiet parent rounds hreset
          ⟨w, j, hw, hquietw⟩ (hquiet'.nil hnil) hflags
        exact ⟨w', j', hw', hquiet'.trans hquietw'⟩
      · have hlen := hlt hnil
        rw [← hrequests] at hlen
        obtain ⟨w, j, hw, hquietw⟩ := ih (s := v) (by omega) (by omega)
        exact ⟨w, j, hw, hquiet'.trans hquietw⟩
    · exact ⟨_, _, rfl, hquiet'⟩

end Ops

lemma scanChildren_returns (parent n : ℕ) (children : Children)
    (hreset : ∀ c ∈ children.forest.labels, c.hasResetBus = true)
    (hrounds : s.requests.length + 2 ≤ rounds) :
    ∃ t m, scanChildren rounds parent children s n = some (t, m) ∧ Quieter s t := by
  induction children generalizing parent s n with
  | nil => exact ⟨s, n, rfl, le_rfl, fun _ _ h => h⟩
  | device sibling ih => exact ih _ _ hreset hrounds
  | bridge b children sibling ihc ihs =>
    simp only [Children.forest, Forest.labels, List.forall_mem_cons, List.forall_mem_append]
      at hreset
    have hscan : ∀ u : State, u.requests.length ≤ s.requests.length →
        ∃ t m, doPciScanBridge b parent
          (fun s max => scanChildren rounds b.bus children s.probe max) u n = some (t, m) ∧
          Quieter u t ∧ (u.requests ≠ [] → t.requests.length < u.requests.length) := by
      intro u hu
      apply doPciScanBridge_returns
      intro v hv _
      have hlen := (quieter_probe (s := v)).requests
      rw [hv] at hlen
      obtain ⟨t, m, ht, hquiet⟩ := ihc b.bus (n + 1) hreset.2.1
        (show v.probe.requests.length + 2 ≤ rounds by omega)
      refine ⟨t, m, ht, quieter_probe.trans hquiet, ?_⟩
      intro hne
      exact hquiet.requests.trans_lt (length_requests_probe hne)
    obtain ⟨u, k, hu, hquiet⟩ := scanBus_returns parent hreset.1 hscan le_rfl hrounds
    have hlen := hquiet.requests
    obtain ⟨t, m, ht, hquiet'⟩ := ihs parent k hreset.2.2
      (show u.requests.length + 2 ≤ rounds by omega)
    refine ⟨t, m, ?_, hquiet.trans hquiet'⟩
    rw [scanChildren, hu, Option.bind_some]
    exact ht

/-! ### The numbers -/

/-- What the numbers of the buses behind the bridges `f` on the bus `root` say. -/
structure BusNumbers (root : ℕ) (f : Forest Bridge) (s : State) : Prop where
  root_lt : ∀ b ∈ f.labels, s.secondary root < s.secondary b.bus
  unique : ∀ b ∈ f.labels, ∀ c ∈ f.labels, b ≠ c → s.secondary b.bus ≠ s.secondary c.bus
  subordinate : ∀ b ∈ f.labels,
    IsGreatest {m | ∃ c, (c = b ∨ f.Below c b) ∧ s.secondary c.bus = m} (s.subordinate b.bus)
  nested : ∀ b ∈ f.labels, ∀ c ∈ f.labels, b ≠ c →
    (Set.Icc (s.secondary b.bus) (s.subordinate b.bus) ⊆
      Set.Icc (s.secondary c.bus) (s.subordinate c.bus) ↔ f.Below b c)
  disjoint : ∀ b ∈ f.labels, ∀ c ∈ f.labels, b ≠ c → ¬f.Below b c → ¬f.Below c b →
    Disjoint (Set.Icc (s.secondary b.bus) (s.subordinate b.bus))
      (Set.Icc (s.secondary c.bus) (s.subordinate c.bus))
  registers : Registers s root f

lemma Scanned.busNumbers (h : Scanned parent n f s t) (hparent : ∀ c ∈ f.labels, c.bus ≠ parent)
    (hn : s.secondary parent ≤ n) : BusNumbers parent f t := by
  have hsec : t.secondary parent ≤ n := by
    rw [h.frame.secondary]
    · exact hn
    · simpa using hparent
  refine ⟨?_, ?_, ?_, ?_, ?_, h.registers⟩
  · intro b hb
    exact hsec.trans_lt (h.numbered.bounds hb).1
  · intro b hb c hc hne heq
    exact hne (h.numbered.lo_inj hb hc heq)
  · intro b hb
    exact h.numbered.isGreatest_hi hb
  · intro b hb c hc hne
    exact h.numbered.icc_subset_iff hb hc hne
  · intro b hb c hc hne hbc hcb
    exact h.numbered.disjoint_icc hb hc hne hbc hcb

/-- However often buses are scanned again, the buses behind the bridges end up with numbers that are
nested as the bridges are, and the scan ends if each bridge can be reset. -/
theorem pciScanBus_numbers {root max : ℕ} (children : Children) (hd : Distinct children.forest)
    (hroot : ∀ c ∈ children.forest.labels, c.bus ≠ root) (hmax : s.secondary root ≤ max)
    (hcount : max + children.forest.size ≤ 0xff) :
    (∀ rounds t m, pciScanBus rounds root children s max = some (t, m) →
      BusNumbers root children.forest t ∧ m = max + children.forest.size) ∧
    ((∀ c ∈ children.forest.labels, c.hasResetBus = true) → ∀ rounds,
      s.requests.length + 2 ≤ rounds → ∃ t m, pciScanBus rounds root children s max = some (t, m)) := by
  have hprobe : s.probe.secondary root = s.secondary root := congrFun (probe_eq s).1 root
  constructor
  · intro rounds t m h
    obtain ⟨hscanned, hm⟩ :=
      scanChildren_spec children hd hroot (by rw [hprobe]; omega) hcount h
    exact ⟨hscanned.busNumbers hroot (hprobe ▸ hmax), hm⟩
  · intro hreset rounds hrounds
    have hlen := (quieter_probe (s := s)).requests
    obtain ⟨t, m, h, -⟩ := scanChildren_returns root max children hreset
      (show s.probe.requests.length + 2 ≤ rounds by omega)
    exact ⟨t, m, h⟩

/-- A bridge behind a bridge, another one beside them, and a reset of the first bus. -/
theorem pciScanBus_numbers_nested :
    let children : Children :=
      .device (.bridge ⟨1, 11, [], true⟩ (.bridge ⟨2, 12, [], true⟩ .nil .nil)
        (.bridge ⟨3, 13, [], true⟩ .nil .nil))
    let s : State :=
      { secondary := fun _ => 0
        subordinate := fun _ => 0
        resetNeeded := fun _ => false
        command := fun _ => 0x0007
        primaryBus := fun _ => 0x20000000
        requests := [fun _ => false, fun bus => bus == 11] }
    (∀ rounds t m, pciScanBus rounds 10 children s 0 = some (t, m) →
      BusNumbers 10 children.forest t ∧ m = 0 + children.forest.size) ∧
    ((∀ c ∈ children.forest.labels, c.hasResetBus = true) → ∀ rounds,
      s.requests.length + 2 ≤ rounds → ∃ t m, pciScanBus rounds 10 children s 0 = some (t, m)) := by
  intro children s
  apply pciScanBus_numbers children
  · exact ⟨by decide, by decide⟩
  · simp [children, Children.forest, Forest.labels]
  · exact le_rfl
  · simp [children, Children.forest, Forest.size]

end ApuBios.PciBus
