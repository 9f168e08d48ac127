import ApuBios.Cpu.Lapic.Basic

/-!
# The hand-over of the stacks

As long as every processor is in time, the processor that is started as the `n`-th one takes the
`n`-th stack. A processor that is late may take none, or the stack of the next one.
-/

namespace ApuBios.Lapic

open Transition

variable {cfg : Config} {s t : State} {l : List ℕ}

/-! ### Stacks -/

lemma stackEnd_eq {index : ℕ} (h : index < cfg.maxCpus) :
    stackEnd cfg index + cfg.stackSize * index + cfg.cpuInfoSize = cfg.estack ∧
      stackEnd cfg index ≠ 0 := by
  have hle : cfg.stackSize * (index + 1) ≤ cfg.estack := by
    rw [mul_comm]
    exact (Nat.mul_le_mul_right _ h).trans cfg.stacks_le
  rw [Nat.mul_add_one] at hle
  have hlt := cfg.cpuInfoSize_lt
  have hfits := cfg.fits
  rw [stackEnd, Word.sub_eq (a := cfg.estack) (by omega) hfits, Word.sub_eq (by omega) (by omega)]
  omega

lemma stackEnd_inj {i j : ℕ} (hi : i < cfg.maxCpus) (hj : j < cfg.maxCpus)
    (h : stackEnd cfg i = stackEnd cfg j) : i = j := by
  have hmul : cfg.stackSize * i = cfg.stackSize * j := by
    have := (stackEnd_eq hi).1
    have := (stackEnd_eq hj).1
    omega
  exact Nat.eq_of_mul_eq_mul_left (Nat.zero_lt_of_lt cfg.cpuInfoSize_lt) hmul

/-! ### Steps -/

/-- The processor that `start_cpu` was called for, before it has got an index. -/
def Phase.chosen : Phase → Option ℕ
  | .locked apicid => some apicid
  | _ => none

/-- The processor that has got the last index. -/
def Phase.current : Phase → Option ℕ
  | .indexed apicid _ => some apicid
  | phase => phase.advertised

/-- The processor that `start_cpu` was called for, before the STARTUP IPI. -/
def Phase.unstarted : Phase → Option ℕ
  | .locked apicid => some apicid
  | .indexed apicid _ => some apicid
  | .stackSet apicid _ => some apicid
  | .starting apicid => some apicid
  | _ => none

/-- What has not got an index. -/
def State.ahead (s : State) : List ℕ := s.phase.chosen.toList ++ s.cpus

/-- What has not been started. -/
def State.unstarted (s : State) : List ℕ := s.phase.unstarted.toList ++ s.cpus

/-- What a step does. -/
inductive Change (cfg : Config) (s : State) : Event → State → Prop where
  | lock {apicid : ℕ} {cpus : List ℕ} (phase : s.phase = .loop) (cpus_eq : s.cpus = apicid :: cpus) :
    Change cfg s .bsp { s with startCpuLock := true, cpus, phase := .locked apicid }
  | index {apicid : ℕ} (phase : s.phase = .locked apicid) :
    Change cfg s .bsp { s with
      lastCpuIndex := s.lastCpuIndex + 1
      phase := .indexed apicid (s.lastCpuIndex + 1) }
  | setStack {apicid index : ℕ} (phase : s.phase = .indexed apicid index) :
    Change cfg s .bsp { s with
      secondaryStack := stackEnd cfg index
      phase := .stackSet apicid index }
  | setIndex {apicid index : ℕ} (phase : s.phase = .stackSet apicid index) :
    Change cfg s .bsp { s with secondaryCpuIndex := index, phase := .starting apicid }
  | ipi {apicid : ℕ} (phase : s.phase = .starting apicid) :
    Change cfg s .startupIpi { s with
      phase := .ipiSent apicid
      aps := Function.update s.aps apicid .started }
  /-- `lapic_start_cpu` returns, or the boot processor waits. -/
  | proceed {e : Event} {apicid : ℕ} {phase : Phase} (advertised : s.phase.advertised = some apicid)
    (phase_eq : phase = .ending apicid ∨ ∃ count, phase = .waiting apicid count) :
    Change cfg s e { s with phase }
  | clear {apicid : ℕ} (phase : s.phase = .ending apicid) :
    Change cfg s .bsp { s with secondaryStack := 0, phase := .unlocking }
  | unlock (phase : s.phase = .unlocking) :
    Change cfg s .bsp { s with startCpuLock := false, phase := .loop }
  | readStack {apicid : ℕ} (ap : s.aps apicid = .started) :
    Change cfg s (.ap apicid) { s with
      aps := Function.update s.aps apicid (.hasStack s.secondaryStack) }
  | readIndex {apicid esp : ℕ} (ap : s.aps apicid = .hasStack esp) :
    Change cfg s (.ap apicid) { s with
      aps := Function.update s.aps apicid (.hasIndex esp s.secondaryCpuIndex) }
  | clearStack {apicid esp edi : ℕ} (ap : s.aps apicid = .hasIndex esp edi) :
    Change cfg s (.ap apicid) { s with
      secondaryStack := 0
      aps := Function.update s.aps apicid (.running esp edi) }
  /-- A step in `secondary_cpu_init`. -/
  | inInit {apicid esp edi : ℕ} {ap : Ap} {lock : Bool}
    (stack : (s.aps apicid).stack = some esp ∧ ap.stack = some esp)
    (index : (s.aps apicid).index = some edi ∧ ap.index = some edi) :
    Change cfg s (.ap apicid) { s with
      startCpuLock := lock
      aps := Function.update s.aps apicid ap }

lemma change_of_bspStep (h : bspStep cfg s = some t) : Change cfg s .bsp t := by
  rw [bspStep] at h
  cases hphase : s.phase with
  | loop =>
    cases hcpus : s.cpus with
    | nil => simp [hphase, hcpus] at h
    | cons apicid cpus =>
      simp only [hphase, hcpus] at h
      split_ifs at h
      exact Option.some.inj h ▸ .lock hphase hcpus
  | locked apicid =>
    simp only [hphase, Option.some.injEq] at h
    exact h ▸ .index hphase
  | indexed apicid index =>
    simp only [hphase, Option.some.injEq] at h
    exact h ▸ .setStack hphase
  | stackSet apicid index =>
    simp only [hphase, Option.some.injEq] at h
    exact h ▸ .setIndex hphase
  | starting apicid => simp [hphase] at h
  | ipiSent apicid => simp [hphase] at h
  | waiting apicid count =>
    simp only [hphase] at h
    have hadvertised : s.phase.advertised = some apicid := by rw [hphase]; rfl
    split_ifs at h
    · exact Option.some.inj h ▸ .proceed hadvertised (.inl rfl)
    · exact Option.some.inj h ▸ .proceed hadvertised (.inr ⟨_, rfl⟩)
  | ending apicid =>
    simp only [hphase, Option.some.injEq] at h
    exact h ▸ .clear hphase
  | unlocking =>
    simp only [hphase, Option.some.injEq] at h
    exact h ▸ .unlock hphase

lemma change_of_apStep {apicid : ℕ} (h : apStep cfg s apicid = some t) :
    Change cfg s (.ap apicid) t := by
  rw [apStep] at h
  cases hap : s.aps apicid with
  | off => simp [hap] at h
  | started =>
    simp only [hap, Option.some.injEq] at h
    exact h ▸ .readStack hap
  | hasStack esp =>
    simp only [hap, Option.some.injEq] at h
    exact h ▸ .readIndex hap
  | hasIndex esp edi =>
    simp only [hap, Option.some.injEq] at h
    exact h ▸ .clearStack hap
  | running esp edi =>
    have hstack : (s.aps apicid).stack = some esp ∧ (s.aps apicid).index = some edi := by
      rw [hap]
      exact ⟨rfl, rfl⟩
    simp only [hap] at h
    split_ifs at h
    · exact Option.some.inj h ▸ .inInit ⟨hstack.1, rfl⟩ ⟨hstack.2, rfl⟩
    · exact Option.some.inj h ▸ .inInit ⟨hstack.1, rfl⟩ ⟨hstack.2, rfl⟩
  | initializing esp edi =>
    have hstack : (s.aps apicid).stack = some esp ∧ (s.aps apicid).index = some edi := by
      rw [hap]
      exact ⟨rfl, rfl⟩
    simp only [hap, Option.some.injEq] at h
    exact h ▸ .inInit ⟨hstack.1, rfl⟩ ⟨hstack.2, rfl⟩
  | stopped esp edi => simp [hap] at h

lemma change_of_step {e : Event} (h : step cfg s e = some t) : Change cfg s e t := by
  cases e with
  | bsp => exact change_of_bspStep h
  | startupIpi =>
    simp only [step] at h
    split at h
    · next apicid hphase => exact Option.some.inj h ▸ .ipi hphase
    · cases h
  | lapicResult result =>
    simp only [step] at h
    split at h
    · next hphase => exact Option.some.inj h ▸ .proceed (by rw [hphase]; rfl) (.inl rfl)
    · next hphase => exact Option.some.inj h ▸ .proceed (by rw [hphase]; rfl) (.inl rfl)
    · next hphase => exact Option.some.inj h ▸ .proceed (by rw [hphase]; rfl) (.inr ⟨0, rfl⟩)
    · cases h
  | ap apicid => exact change_of_apStep h

/-! ### The invariant -/

/-- The processors are started in the order of the list `l`, and each takes the stack that was made
for it. -/
structure Inv (cfg : Config) (l : List ℕ) (s : State) : Prop where
  ahead_eq : s.ahead = l.drop s.lastCpuIndex
  lastCpuIndex_le : s.lastCpuIndex ≤ l.length
  current : ∀ i ∈ s.phase.current, ∃ n, s.lastCpuIndex = n + 1 ∧ l[n]? = some i
  phase_index : ∀ i index, s.phase = .indexed i index ∨ s.phase = .stackSet i index →
    index = s.lastCpuIndex
  off : ∀ i ∈ s.unstarted, s.aps i = .off
  secondaryCpuIndex_le : s.secondaryCpuIndex ≤ s.lastCpuIndex
  index_le : ∀ i edi, (s.aps i).index = some edi → edi ≤ s.lastCpuIndex
  stack : ∀ i esp, (s.aps i).stack = some esp →
    ∃ n < s.lastCpuIndex, l[n]? = some i ∧ esp = stackEnd cfg (n + 1)
  pending : s.Pending → s.secondaryStack = stackEnd cfg s.lastCpuIndex
  idle : s.phase.advertised = none → s.secondaryStack = 0
  stale : s.secondaryStack = 0 ∨ s.secondaryStack = stackEnd cfg s.lastCpuIndex

lemma inv_initial (bus : CpuBus cfg) :
    Inv cfg (startOtherCpus cfg bus) (initial cfg bus) where
  ahead_eq := rfl
  lastCpuIndex_le := Nat.zero_le _
  current i hi := by cases hi
  phase_index i index h := by rcases h with h | h <;> cases h
  off i hi := rfl
  secondaryCpuIndex_le := le_rfl
  index_le i edi h := by cases h
  stack i esp h := by cases h
  pending h := by
    obtain ⟨i, hi, -⟩ := h
    cases hi
  idle h := rfl
  stale := .inl rfl

/-- A processor that has been started is not among those that have not. -/
lemma Inv.ne_of_unstarted (hinv : Inv cfg l s) {i j : ℕ} (hi : s.aps i ≠ .off)
    (hj : j ∈ s.unstarted) : j ≠ i := by
  rintro rfl
  exact hi (hinv.off j hj)

/-- A step of an application processor. -/
lemma Inv.update (hinv : Inv cfg l s) {i v : ℕ} {ap : Ap} {lock : Bool} (hne : s.aps i ≠ .off)
    (hindex : ∀ edi, ap.index = some edi → edi ≤ s.lastCpuIndex)
    (hstack : ∀ esp, ap.stack = some esp →
      ∃ n < s.lastCpuIndex, l[n]? = some i ∧ esp = stackEnd cfg (n + 1))
    (hv : v = 0 ∨ v = s.secondaryStack)
    (hpending : ∀ j ∈ s.phase.advertised, (Function.update s.aps i ap j).stack = none →
      v = stackEnd cfg s.lastCpuIndex) :
    Inv cfg l { s with
      secondaryStack := v, startCpuLock := lock, aps := Function.update s.aps i ap } where
  ahead_eq := hinv.ahead_eq
  lastCpuIndex_le := hinv.lastCpuIndex_le
  current := hinv.current
  phase_index := hinv.phase_index
  off j hj := by
    simp only [Function.update_of_ne (hinv.ne_of_unstarted hne hj)]
    exact hinv.off j hj
  secondaryCpuIndex_le := hinv.secondaryCpuIndex_le
  index_le j edi h := by
    rcases eq_or_ne j i with rfl | hj
    · simp only [Function.update_self] at h
      exact hindex edi h
    · simp only [Function.update_of_ne hj] at h
      exact hinv.index_le j edi h
  stack j esp h := by
    rcases eq_or_ne j i with rfl | hj
    · simp only [Function.update_self] at h
      exact hstack esp h
    · simp only [Function.update_of_ne hj] at h
      exact hinv.stack j esp h
  pending h := by
    obtain ⟨j, hj, hnone⟩ := h
    exact hpending j hj hnone
  idle h := by
    rcases hv with rfl | rfl
    · rfl
    · exact hinv.idle h
  stale := by
    rcases hv with rfl | rfl
    · exact .inl rfl
    · exact hinv.stale

/-- Only a processor without a stack can become one that has yet to take one. -/
lemma pending_of_update {i esp : ℕ} {ap : Ap} (hap : ap.stack = some esp)
    (j : ℕ) (hj : j ∈ s.phase.advertised) (h : (Function.update s.aps i ap j).stack = none) :
    s.Pending := by
  rcases eq_or_ne j i with rfl | hne
  · rw [Function.update_self, hap] at h
    cases h
  · rw [Function.update_of_ne hne] at h
    exact ⟨j, hj, h⟩

/-- The processor that `start_cpu` was called for gets its index. -/
lemma Inv.next (hinv : Inv cfg l s) {i : ℕ} (hphase : s.phase = .locked i) :
    l[s.lastCpuIndex]? = some i ∧ s.cpus = l.drop (s.lastCpuIndex + 1) ∧
      s.lastCpuIndex < l.length := by
  have hahead : i :: s.cpus = l.drop s.lastCpuIndex := by
    rw [← hinv.ahead_eq, State.ahead, hphase]
    rfl
  have hget : l[s.lastCpuIndex]? = some i := by
    rw [← List.head?_drop, ← hahead, List.head?_cons]
  refine ⟨hget, ?_, (List.getElem?_eq_some_iff.mp hget).1⟩
  rw [← List.tail_drop, ← hahead, List.tail_cons]

/-- The processors behind the one that is started are others. -/
lemma Inv.notMem_cpus (hinv : Inv cfg l s) (hnodup : l.Nodup) {i : ℕ}
    (hcurrent : i ∈ s.phase.current) (hchosen : s.phase.chosen = none) : i ∉ s.cpus := by
  obtain ⟨n, hn, hget⟩ := hinv.current i hcurrent
  have hcpus : s.cpus = l.drop (n + 1) := by
    rw [← hn, ← hinv.ahead_eq, State.ahead, hchosen]
    rfl
  intro hmem
  rw [hcpus] at hmem
  obtain ⟨k, hk, hki⟩ := List.mem_drop_iff_getElem.mp hmem
  obtain ⟨hlt, hget⟩ := List.getElem?_eq_some_iff.mp hget
  have := (hnodup.getElem_inj_iff).mp (hki.trans hget.symm)
  omega

/-- A step of the boot processor that gives no index and starts no processor. -/
lemma Inv.move (hinv : Inv cfg l s) {phase : Phase} {v w : ℕ} {lock : Bool} {cpus : List ℕ}
    (hahead : s.ahead = phase.chosen.toList ++ cpus)
    (hcurrent : ∀ i ∈ phase.current, i ∈ s.phase.current)
    (hindex : ∀ i index, phase = .indexed i index ∨ phase = .stackSet i index →
      index = s.lastCpuIndex)
    (hunstarted : ∀ i ∈ phase.unstarted.toList ++ cpus, i ∈ s.unstarted)
    (hw : w ≤ s.lastCpuIndex)
    (hpending : ∀ i ∈ phase.advertised, (s.aps i).stack = none →
      v = stackEnd cfg s.lastCpuIndex)
    (hidle : phase.advertised = none → v = 0)
    (hstale : v = 0 ∨ v = stackEnd cfg s.lastCpuIndex) :
    Inv cfg l { s with
      secondaryStack := v, secondaryCpuIndex := w, startCpuLock := lock, cpus, phase } where
  ahead_eq := hahead.symm.trans hinv.ahead_eq
  lastCpuIndex_le := hinv.lastCpuIndex_le
  current i hi := hinv.current i (hcurrent i hi)
  phase_index := hindex
  off i hi := hinv.off i (hunstarted i hi)
  secondaryCpuIndex_le := hw
  index_le := hinv.index_le
  stack := hinv.stack
  pending h := by
    obtain ⟨i, hi, hnone⟩ := h
    exact hpending i hi hnone
  idle := hidle
  stale := hstale

/-- `++last_cpu_index` -/
lemma Inv.index (hinv : Inv cfg l s) {i : ℕ} (hphase : s.phase = .locked i) :
    Inv cfg l { s with
      lastCpuIndex := s.lastCpuIndex + 1
      phase := .indexed i (s.lastCpuIndex + 1) } := by
  obtain ⟨hget, hcpus, hlt⟩ := hinv.next hphase
  have hzero := hinv.idle (by rw [hphase]; rfl)
  exact
    { ahead_eq := hcpus
      lastCpuIndex_le := hlt
      current := fun j hj => ⟨_, rfl, hget.trans hj⟩
      phase_index := by
        rintro j index (h | h)
        · exact (Phase.indexed.inj h).2.symm
        · cases h
      off := fun j hj => hinv.off j (by rw [State.unstarted, hphase]; exact hj)
      secondaryCpuIndex_le := hinv.secondaryCpuIndex_le.trans (Nat.le_succ _)
      index_le := fun j edi h => (hinv.index_le j edi h).trans (Nat.le_succ _)
      stack := fun j esp h => by
        obtain ⟨n, hn, hprop⟩ := hinv.stack j esp h
        exact ⟨n, Nat.lt_succ_of_lt hn, hprop⟩
      pending := fun ⟨j, hj, _⟩ => by cases hj
      idle := fun _ => hzero
      stale := .inl hzero }

/-- The STARTUP IPI. -/
lemma Inv.ipi (hinv : Inv cfg l s) (hnodup : l.Nodup) {i : ℕ} (hphase : s.phase = .starting i) :
    Inv cfg l { s with phase := .ipiSent i, aps := Function.update s.aps i .started } := by
  have hoff : s.aps i = .off := hinv.off i (by rw [State.unstarted, hphase]; simp [Phase.unstarted])
  have hcurrent : i ∈ s.phase.current := by rw [hphase]; rfl
  have hnotMem := hinv.notMem_cpus hnodup hcurrent (by rw [hphase]; rfl)
  have hvalue := hinv.pending ⟨i, by rw [hphase]; rfl, by rw [hoff]; rfl⟩
  exact
    { ahead_eq := by rw [← hinv.ahead_eq, State.ahead, State.ahead, hphase]; rfl
      lastCpuIndex_le := hinv.lastCpuIndex_le
      current := fun j hj => hinv.current j (by rw [hphase]; exact hj)
      phase_index := by rintro j index (h | h) <;> cases h
      off := fun j hj => by
        have hj : j ∈ s.cpus := hj
        have hne : j ≠ i := fun heq => hnotMem (heq ▸ hj)
        simp only [Function.update_of_ne hne]
        exact hinv.off j (List.mem_append_right _ hj)
      secondaryCpuIndex_le := hinv.secondaryCpuIndex_le
      index_le := fun j edi h => by
        rcases eq_or_ne j i with rfl | hj
        · simp [Ap.index] at h
        · simp only [Function.update_of_ne hj] at h
          exact hinv.index_le j edi h
      stack := fun j esp h => by
        rcases eq_or_ne j i with rfl | hj
        · simp [Ap.stack] at h
        · simp only [Function.update_of_ne hj] at h
          exact hinv.stack j esp h
      pending := fun _ => hvalue
      idle := fun h => by cases h
      stale := hinv.stale }

lemma current_of_advertised {phase : Phase} {i : ℕ} (h : phase.advertised = some i) :
    phase.current = some i ∧ phase.chosen = none := by
  cases phase <;> cases h <;> exact ⟨rfl, rfl⟩

theorem inv_step {e : Event} (hnodup : l.Nodup) (hinv : Inv cfg l s) (htime : InTime s e)
    (h : step cfg s e = some t) : Inv cfg l t := by
  cases change_of_step h with
  | @lock i cpus hphase hcpus =>
    have hidle := hinv.idle (by rw [hphase]; rfl)
    have hsub : ∀ j ∈ i :: cpus, j ∈ s.unstarted := by
      intro j hj
      rw [State.unstarted, hphase, hcpus]
      exact hj
    exact hinv.move (by rw [State.ahead, hphase, hcpus]; rfl) (fun j hj => by cases hj) (by simp)
      hsub hinv.secondaryCpuIndex_le (fun j hj => by cases hj) (fun _ => hidle) hinv.stale
  | index hphase => exact hinv.index hphase
  | @setStack i index hphase =>
    obtain rfl := hinv.phase_index i index (.inl hphase)
    exact hinv.move (by rw [State.ahead, hphase]; rfl) (fun j hj => by rw [hphase]; exact hj)
      (by simp) (fun j hj => by rw [State.unstarted, hphase]; exact hj) hinv.secondaryCpuIndex_le
      (fun j _ _ => rfl) (fun hnone => by cases hnone) (.inr rfl)
  | @setIndex i index hphase =>
    obtain rfl := hinv.phase_index i index (.inr hphase)
    exact hinv.move (by rw [State.ahead, hphase]; rfl) (fun j hj => by rw [hphase]; exact hj)
      (by simp) (fun j hj => by rw [State.unstarted, hphase]; exact hj) le_rfl
      (fun j hj hnone => hinv.pending ⟨j, by rw [hphase]; exact hj, hnone⟩)
      (fun hnone => by cases hnone) hinv.stale
  | ipi hphase => exact hinv.ipi hnodup hphase
  | @proceed e i phase hadvertised hphase =>
    obtain ⟨hadvertised', hcurrent', hchosen', hunstarted'⟩ : phase.advertised = some i ∧
        phase.current = some i ∧ phase.chosen = none ∧ phase.unstarted = none := by
      rcases hphase with rfl | ⟨count, rfl⟩ <;> exact ⟨rfl, rfl, rfl, rfl⟩
    obtain ⟨hcurrent, hchosen⟩ := current_of_advertised hadvertised
    refine hinv.move (by rw [State.ahead, hchosen, hchosen']) (fun j hj => ?_) ?_ (fun j hj => ?_)
      hinv.secondaryCpuIndex_le (fun j hj hnone => hinv.pending ⟨j, ?_, hnone⟩)
      (fun hnone => ?_) hinv.stale
    · rw [hcurrent, ← hcurrent']
      exact hj
    · rcases hphase with rfl | ⟨count, rfl⟩ <;> simp
    · rw [hunstarted'] at hj
      exact List.mem_append_right _ hj
    · rw [hadvertised, ← hadvertised']
      exact hj
    · rw [hadvertised'] at hnone
      cases hnone
  | @clear i hphase =>
    exact hinv.move (by rw [State.ahead, hphase]; rfl) (fun j hj => by cases hj) (by simp)
      (fun j hj => List.mem_append_right _ hj) hinv.secondaryCpuIndex_le (fun j hj => by cases hj)
      (fun _ => rfl) (.inl rfl)
  | unlock hphase =>
    have hidle := hinv.idle (by rw [hphase]; rfl)
    exact hinv.move (by rw [State.ahead, hphase]; rfl) (fun j hj => by cases hj) (by simp)
      (fun j hj => List.mem_append_right _ hj) hinv.secondaryCpuIndex_le (fun j hj => by cases hj)
      (fun _ => hidle) hinv.stale
  | @readStack i hap =>
    have hadvertised : s.phase.advertised = some i := by
      simp only [InTime, hap] at htime
      exact htime
    obtain ⟨n, hn, hget⟩ := hinv.current i (current_of_advertised hadvertised).1
    have hvalue := hinv.pending ⟨i, hadvertised, by rw [hap]; rfl⟩
    refine hinv.update (by rw [hap]; simp) (by simp [Ap.index]) (fun esp hesp => ?_) (.inr rfl)
      (fun _ _ _ => hvalue)
    rw [Ap.stack, Option.some.injEq] at hesp
    exact ⟨n, by omega, hget, by rw [← hesp, hvalue, hn]⟩
  | @readIndex i esp hap =>
    refine hinv.update (by rw [hap]; simp) (fun edi hedi => ?_)
      (fun esp' hesp' => hinv.stack i esp' ?_) (.inr rfl)
      fun j hj hnone => hinv.pending (pending_of_update rfl j hj hnone)
    · rw [Ap.index, Option.some.injEq] at hedi
      exact hedi ▸ hinv.secondaryCpuIndex_le
    · rw [hap]
      exact hesp'
  | @clearStack i esp edi hap =>
    have hnot : ¬s.Pending := by
      simp only [InTime, hap] at htime
      exact htime
    refine hinv.update (by rw [hap]; simp) (fun edi' hedi' => hinv.index_le i edi' ?_)
      (fun esp' hesp' => hinv.stack i esp' ?_) (.inl rfl)
      fun j hj hnone => absurd (pending_of_update rfl j hj hnone) hnot
    · rw [hap]
      exact hedi'
    · rw [hap]
      exact hesp'
  | @inInit i esp edi ap lock hstack hindex =>
    have hne : s.aps i ≠ .off := fun hoff => by
      rw [hoff] at hstack
      cases hstack.1
    refine hinv.update hne (fun edi' hedi' => hinv.index_le i edi' ?_)
      (fun esp' hesp' => hinv.stack i esp' ?_) (.inr rfl)
      fun j hj hnone => hinv.pending (pending_of_update hstack.2 j hj hnone)
    · rw [hindex.1, ← hindex.2, hedi']
    · rw [hstack.1, ← hstack.2, hesp']

/-! ### Whole runs -/

lemma startOtherCpus_nodup (bus : CpuBus cfg) : (startOtherCpus cfg bus).Nodup := by
  refine bus.nodup.sublist (List.Sublist.map _ ?_)
  have hfilter : (bus.children.filter fun cpu =>
      cpu.isApic && (cfg.serialCpuInit || cpu ≠ bus.bspCpu) && cpu.enabled && !cpu.initialized) =
      (bus.children.filter Cpu.isApic).filter fun cpu =>
        (cfg.serialCpuInit || cpu ≠ bus.bspCpu) && cpu.enabled && !cpu.initialized := by
    rw [List.filter_filter]
    exact List.filter_congr fun cpu _ => by
      cases cpu.isApic <;> simp
  rw [hfilter]
  exact List.filter_sublist

/-- The boot processor is enabled, but not started. -/
lemma startOtherCpus_length_lt (bus : CpuBus cfg) :
    (startOtherCpus cfg bus).length < (bus.children.filter Cpu.enabled).length := by
  have hfilter : (bus.children.filter fun cpu =>
      cpu.isApic && (cfg.serialCpuInit || cpu ≠ bus.bspCpu) && cpu.enabled && !cpu.initialized) =
      (bus.children.filter Cpu.enabled).filter fun cpu =>
        cpu.isApic && (cfg.serialCpuInit || cpu ≠ bus.bspCpu) && !cpu.initialized := by
    rw [List.filter_filter]
    exact List.filter_congr fun cpu _ => by
      cases cpu.enabled <;> simp
  rw [startOtherCpus, List.length_map, hfilter, List.length_filter_lt_length_iff_exists]
  refine ⟨bus.bspCpu, List.mem_filter.mpr ⟨bus.bspCpu_mem, bus.bspCpu_enabled⟩, ?_⟩
  cases hserial : cfg.serialCpuInit with
  | false => simp
  | true => simp [bus.bspCpu_initialized hserial]

lemma Inv.safe (hinv : Inv cfg l s) (hlt : l.length < cfg.maxCpus) : Safe cfg s := by
  have hlast := hinv.lastCpuIndex_le
  refine ⟨fun i j esp hi hj => ?_, fun i esp hi => ?_, fun i esp hi => ?_, fun i edi hi => ?_,
    by omega⟩
  · obtain ⟨n, hn, hni, hnesp⟩ := hinv.stack i esp hi
    obtain ⟨k, hk, hkj, hkesp⟩ := hinv.stack j esp hj
    have heq := stackEnd_inj (by omega) (by omega) (hnesp.symm.trans hkesp)
    rw [Nat.succ.inj heq, hkj] at hni
    exact (Option.some.inj hni).symm
  · obtain ⟨n, hn, -, rfl⟩ := hinv.stack i esp hi
    intro heq
    exact absurd (stackEnd_inj (by omega) (by omega) heq) (Nat.succ_ne_zero n)
  · obtain ⟨n, hn, -, rfl⟩ := hinv.stack i esp hi
    exact (stackEnd_eq (by omega)).2
  · have := hinv.index_le i edi hi
    omega

/-- In a run in which all processors are in time, they have stacks of their own. -/
theorem safe_of_inTime (bus : CpuBus cfg)
    (hmax : (bus.children.filter Cpu.enabled).length ≤ cfg.maxCpus) (es : List Event)
    (htime : Meets (step cfg) InTime (initial cfg bus) es) (s : State)
    (h : exec (step cfg) (initial cfg bus) es = some s) : Safe cfg s := by
  have hnodup := startOtherCpus_nodup bus
  have hinv := invariant_of_meets
    (fun s e t hinv htime hstep => inv_step hnodup hinv htime hstep) (inv_initial bus) htime h
  exact hinv.safe ((startOtherCpus_length_lt bus).trans_le hmax)

/-! ### Late processors -/

/-- The processor that got the last index has taken the last stack, if any. -/
lemma Inv.stack_current (hinv : Inv cfg l s) (hnodup : l.Nodup) {i esp : ℕ}
    (hcurrent : i ∈ s.phase.current) (h : (s.aps i).stack = some esp) :
    esp = stackEnd cfg s.lastCpuIndex := by
  obtain ⟨n, hn, hget⟩ := hinv.current i hcurrent
  obtain ⟨k, hk, hget', rfl⟩ := hinv.stack i esp h
  obtain ⟨hlt, hget⟩ := List.getElem?_eq_some_iff.mp hget
  obtain ⟨hlt', hget'⟩ := List.getElem?_eq_some_iff.mp hget'
  rw [hn, hnodup.getElem_inj_iff.mp (hget'.trans hget.symm)]

/-- The processor that a stack is advertised for can still come and take it. -/
lemma exists_take (cfg : Config) {c : ℕ} (hadvertised : s.phase.advertised = some c)
    (hnone : (s.aps c).stack = none) (hoff : s.aps c = .off → s.phase.unstarted = some c) :
    ∃ q u, exec (step cfg) s q = some u ∧ (u.aps c).stack = some s.secondaryStack ∧
      ∀ j, j ≠ c → u.aps j = s.aps j := by
  cases hap : s.aps c with
  | off =>
    have hunstarted := hoff hap
    cases hphase : s.phase with
    | stackSet i index =>
      obtain rfl : i = c := by simpa [hphase, Phase.unstarted] using hunstarted
      refine ⟨[.bsp, .startupIpi, .ap i], _, by
        simp [exec, step, bspStep, apStep, hphase]; rfl, by simp [Ap.stack], fun j hj => ?_⟩
      simp [hj]
    | starting i =>
      obtain rfl : i = c := by simpa [hphase, Phase.unstarted] using hunstarted
      refine ⟨[.startupIpi, .ap i], _, by simp [exec, step, apStep, hphase]; rfl, by simp [Ap.stack],
        fun j hj => ?_⟩
      simp [hj]
    | _ => simp_all [Phase.unstarted, Phase.advertised]
  | started =>
    refine ⟨[.ap c], _, by simp [exec, step, apStep, hap]; rfl, by simp [Ap.stack], fun j hj => ?_⟩
    simp [hj]
  | _ => rw [hap] at hnone; cases hnone

/-- A processor that is late gets no stack or that of another one, or it takes away a stack that
another one has yet to read, unless the start of the other one has failed. -/
theorem exists_not_safe_of_late (hnodup : l.Nodup) (hinv : Inv cfg l s) {e : Event}
    (hlate : ¬InTime s e)
    (hnext : ∀ c ∈ s.phase.advertised, s.aps c = .off → s.phase.unstarted = some c)
    (h : step cfg s e = some t) : ∃ q u, exec (step cfg) t q = some u ∧ ¬Safe cfg u := by
  cases e with
  | ap i =>
    cases hap : s.aps i with
    | started =>
      simp only [InTime, hap] at hlate
      simp only [step, apStep, hap, Option.some.injEq] at h
      subst h
      by_cases hzero : s.secondaryStack = 0
      · exact ⟨[], _, rfl, fun hsafe => hsafe.not_zero i _ (by simp [Ap.stack]) hzero⟩
      obtain ⟨c, hc⟩ := Option.ne_none_iff_exists'.mp fun hnone => hzero (hinv.idle hnone)
      have hne : c ≠ i := fun heq => hlate (heq ▸ hc)
      cases hstack : (s.aps c).stack with
      | some esp =>
        -- the stack belongs to a processor that has taken it
        have heq : esp = s.secondaryStack := by
          rw [hinv.stack_current hnodup (current_of_advertised hc).1 hstack,
            hinv.stale.resolve_left hzero]
        exact ⟨[], _, rfl, fun hsafe => hne (hsafe.disjoint c i esp (by simp [hne, hstack])
          (by simp [Ap.stack, heq]))⟩
      | none =>
        obtain ⟨q, u, hu, hcu, hothers⟩ := exists_take cfg
          (s := { s with aps := Function.update s.aps i (.hasStack s.secondaryStack) }) (c := c) hc
          (by simpa [hne] using hstack) fun hoff => hnext c hc (by simpa [hne] using hoff)
        exact ⟨q, u, hu, fun hsafe => hne (hsafe.disjoint c i _ hcu
          (by rw [hothers i hne.symm]; simp [Ap.stack]))⟩
    | hasIndex esp edi =>
      simp only [InTime, hap, not_not] at hlate
      obtain ⟨c, hc, hstack⟩ := hlate
      have hne : c ≠ i := by
        rintro rfl
        rw [hap] at hstack
        cases hstack
      simp only [step, apStep, hap, Option.some.injEq] at h
      subst h
      obtain ⟨q, u, hu, hcu, -⟩ := exists_take cfg
        (s := { s with
          secondaryStack := 0, aps := Function.update s.aps i (.running esp edi) }) (c := c) hc
        (by simpa [hne] using hstack) fun hoff => hnext c hc (by simpa [hne] using hoff)
      exact ⟨q, u, hu, fun hsafe => hsafe.not_zero c 0 hcu rfl⟩
    | _ => simp [InTime, hap] at hlate
  | _ => exact absurd trivial hlate

/-! ### A board with two processors -/

def twoCpus : Config where
  serialCpuInit := true
  maxCpus := 2
  stackSize := 0x1000
  cpuInfoSize := 8
  estack := 0x150000
  cpuInfoSize_lt := by norm_num
  stacks_le := by norm_num
  fits := by norm_num

def twoCpusBus : CpuBus twoCpus where
  children := [⟨true, 0, true, true⟩, ⟨true, 1, true, false⟩]
  bspCpu := ⟨true, 0, true, true⟩
  nodup := by decide
  bspCpu_mem := by decide
  bspCpu_enabled := rfl
  bspCpu_initialized _ := rfl

/-- `start_cpu` up to the wait. -/
def startCpu : List Event := [.bsp, .bsp, .bsp, .bsp, .startupIpi, .lapicResult true]

/-- The processor reads and clears the variables while it is waited for. -/
theorem safe_of_inTime_twoCpus :
    ∃ s, exec (step twoCpus) (initial twoCpus twoCpusBus)
      (startCpu ++ [.ap 1, .bsp, .ap 1, .ap 1, .bsp, .bsp, .bsp]) = some s ∧ Safe twoCpus s := by
  obtain ⟨s, hs⟩ := Option.isSome_iff_exists.mp (show (exec (step twoCpus)
    (initial twoCpus twoCpusBus)
      (startCpu ++ [.ap 1, .bsp, .ap 1, .ap 1, .bsp, .bsp, .bsp])).isSome by decide +kernel)
  exact ⟨s, hs, safe_of_inTime twoCpusBus (by decide) _ (by decide +kernel) s hs⟩

/-- The wait expires. -/
lemma exec_wait {i count n : ℕ} (hphase : s.phase = .waiting i count) (hne : s.secondaryStack ≠ 0)
    (hn : 0 < n) (hcount : count + n = maxCount) :
    exec (step cfg) s (List.replicate n .bsp) = some { s with phase := .ending i } := by
  induction n, hn using Nat.le_induction generalizing s count with
  | base => simp [exec, step, bspStep, hphase, hcount]
  | succ n hn ih =>
    have hlt : ¬(s.secondaryStack = 0 ∨ count + 1 = maxCount) := by omega
    rw [List.replicate_succ, exec, step, bspStep, hphase]
    simp only [if_neg hlt, Option.bind_some]
    exact ih rfl hne (by omega)

/-- A processor that reads `secondary_stack` when the wait has expired starts without a stack. -/
theorem not_safe_of_late : ¬∀ (cfg : Config) (bus : CpuBus cfg) (es : List Event) (s : State),
    (bus.children.filter Cpu.enabled).length ≤ cfg.maxCpus →
    exec (step cfg) (initial cfg bus) es = some s → Safe cfg s := by
  intro h
  obtain ⟨s, hs⟩ : ∃ s, exec (step twoCpus) (initial twoCpus twoCpusBus) startCpu = some s :=
    ⟨_, rfl⟩
  have hwaiting : s.phase = .waiting 1 0 ∧ s.secondaryStack ≠ 0 ∧ s.aps 1 = .started := by
    obtain rfl := Option.some.inj hs
    decide +kernel
  have hrun : exec (step twoCpus) (initial twoCpus twoCpusBus)
      (startCpu ++ (List.replicate maxCount .bsp ++ [.bsp, .ap 1])) =
        some { s with
          secondaryStack := 0, phase := .unlocking
          aps := Function.update s.aps 1 (.hasStack 0) } := by
    rw [exec_append, hs, Option.bind_some, exec_append,
      exec_wait hwaiting.1 hwaiting.2.1 (by decide) (Nat.zero_add _), Option.bind_some]
    simp [exec, step, bspStep, apStep, hwaiting.2.2]
  exact (h twoCpus twoCpusBus _ _ (by decide) hrun).not_zero 1 0 (by simp [Ap.stack]) rfl

end ApuBios.Lapic
