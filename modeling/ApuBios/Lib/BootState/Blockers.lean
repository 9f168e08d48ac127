import ApuBios.Lib.BootState.Properties

/-!
# Blockers of the boot state machine

Phases are blocked and unblocked by the code that the walk calls. Whether a phase has passed is
decided by comparing ids, so that a walk must go up through the states (`not_clear_descending`).
-/

namespace ApuBios.BootState

open Transition

variable {ι : Type*} [LinearOrder ι]

/-- The phase that `current_phase` names. -/
def Machine.phase (m : Machine ι) : ι × BootStateSequence := (m.stateId, m.seq)

/-- One phase is before another in the order of the ids. -/
def Precedes (x y : ι × BootStateSequence) : Prop :=
  x.1 < y.1 ∨ x.1 = y.1 ∧ x.2 = .onEntry ∧ y.2 = .onExit

def Machine.blockers (m : Machine ι) (x : ι × BootStateSequence) : ℕ := (m.phases x.1 x.2).blockers

/-! ### Calls -/

/-- A call has changed nothing but the count of one phase. -/
structure Counted (m m' : Machine ι) (x : ι × BootStateSequence) (n : ℕ) : Prop where
  count : m'.blockers x = n
  others : ∀ y, y ≠ x → m'.blockers y = m.blockers y
  callbacks : m'.callbacks = m.callbacks
  complete : m'.complete = m.complete
  phase : m'.phase = m.phase
  control : m'.control = m.control

/-- `boot_state_block` fails for the phases that precede the current one, and adds to the count of
the others. -/
def BlockLaw (m : Machine ι) : Prop :=
  ∀ s q, (Precedes (s, q) m.phase → bootStateBlock m s q = (m, -1)) ∧
    (¬ Precedes (s, q) m.phase → (bootStateBlock m s q).2 = 0 ∧
      Counted m (bootStateBlock m s q).1 (s, q) (m.blockers (s, q) + 1))

/-- `boot_state_unblock` also fails for a phase that is not blocked. -/
def UnblockLaw (m : Machine ι) : Prop :=
  ∀ s q, (Precedes (s, q) m.phase ∨ m.blockers (s, q) = 0 → bootStateUnblock m s q = (m, -1)) ∧
    (¬ (Precedes (s, q) m.phase ∨ m.blockers (s, q) = 0) → (bootStateUnblock m s q).2 = 0 ∧
      Counted m (bootStateUnblock m s q).1 (s, q) (m.blockers (s, q) - 1))

section Calls

variable {m : Machine ι} {s : ι} {q : BootStateSequence}

lemma isPast_iff : m.IsPast s q = true ↔ Precedes (s, q) m.phase := by
  simp only [Machine.IsPast, Precedes, Machine.phase, decide_eq_true_eq]
  refine or_congr_right (and_congr eq_comm ?_)
  cases q <;> cases m.seq <;> decide

lemma blockers_setPhase (m : Machine ι) (s : ι) (q : BootStateSequence) (p : BootPhase)
    (x : ι × BootStateSequence) :
    (m.setPhase s q p).blockers x = if x = (s, q) then p.blockers else m.blockers x := by
  obtain ⟨s', q'⟩ := x
  simp only [Machine.blockers, Machine.setPhase, Function.update_apply, Prod.mk.injEq]
  by_cases hs : s' = s
  · subst hs
    by_cases hq : q' = q <;> simp [hq]
  · simp [hs]

lemma counted_setPhase (m : Machine ι) (s : ι) (q : BootStateSequence) (n : ℕ) :
    Counted m (m.setPhase s q { m.phases s q with blockers := n }) (s, q) n where
  count := by rw [blockers_setPhase, if_pos rfl]
  others := fun y hy => by rw [blockers_setPhase, if_neg hy]
  callbacks := by
    funext s' q'
    rw [callbacks_setPhase]
    split_ifs with h
    · rw [h.1, h.2]
      rfl
    · rfl
  complete := rfl
  phase := rfl
  control := rfl

lemma blockLaw (m : Machine ι) : BlockLaw m := by
  intro s q
  rw [← isPast_iff, bootStateBlock]
  refine ⟨fun hpast => if_pos hpast, fun hpast => ?_⟩
  rw [if_neg hpast]
  exact ⟨rfl, counted_setPhase m s q _⟩

lemma unblockLaw (m : Machine ι) : UnblockLaw m := by
  intro s q
  rw [← isPast_iff, bootStateUnblock]
  dsimp only
  constructor
  · rintro (hpast | hzero)
    · exact if_pos hpast
    · rw [if_pos (show (m.phases s q).blockers = 0 from hzero), ite_self]
  · intro hnot
    obtain ⟨hpast, hzero⟩ := not_or.mp hnot
    rw [if_neg hpast, if_neg (show ¬ (m.phases s q).blockers = 0 from hzero)]
    exact ⟨rfl, counted_setPhase m s q _⟩

/-- The counts of the phases that have passed do not change. -/
lemma blockers_block (m : Machine ι) (s : ι) (q : BootStateSequence) {x : ι × BootStateSequence}
    (hx : Precedes x m.phase) : (bootStateBlock m s q).1.blockers x = m.blockers x := by
  obtain ⟨hfails, hcounts⟩ := blockLaw m s q
  by_cases hpast : Precedes (s, q) m.phase
  · rw [hfails hpast]
  · exact (hcounts hpast).2.others x fun h => hpast (h ▸ hx)

lemma blockers_unblock (m : Machine ι) (s : ι) (q : BootStateSequence) {x : ι × BootStateSequence}
    (hx : Precedes x m.phase) : (bootStateUnblock m s q).1.blockers x = m.blockers x := by
  obtain ⟨hfails, hcounts⟩ := unblockLaw m s q
  by_cases hpast : Precedes (s, q) m.phase ∨ m.blockers (s, q) = 0
  · rw [hfails hpast]
  · exact (hcounts hpast).2.others x fun h => hpast (.inl (h ▸ hx))

end Calls

/-! ### Leaving phases -/

/-- The phase that the walk leaves, and that nothing holds up any more. -/
def leaves (m : Machine ι) : Event ι → Option (ι × BootStateSequence)
  | .walk => match m.control with
    | .drain _ =>
      if (m.phases m.stateId m.seq).callbacks = [] ∧ (m.phases m.stateId m.seq).blockers = 0 then
        some m.phase
      else none
    | _ => none
  | _ => none

/-- The state of which `run_state` is called, behind its entry phase. -/
def runs (m : Machine ι) (e : Event ι) : Option ι :=
  match m.control with
  | .drain none => (leaves m e).map Prod.fst
  | _ => none

/-- A machine together with the phases it has left, and the states of which `run_state` was called,
oldest first. -/
structure Watch (ι : Type*) where
  machine : Machine ι
  left : List (ι × BootStateSequence)
  ran : List ι

def Watch.init (first : ι) : Watch ι := ⟨.init first, [], []⟩

def Watch.step (w : Watch ι) (e : Event ι) : Option (Watch ι) :=
  (BootState.step w.machine e).map fun m =>
    ⟨m, w.left ++ (leaves w.machine e).toList, w.ran ++ (runs w.machine e).toList⟩

/-- `run_state` returns a later state, or one that has completed, with which the walk ends. -/
def Ascending (w : Watch ι) : Event ι → Prop
  | .return_ next => w.machine.control = .runState →
    w.machine.stateId < next ∨ next = w.machine.stateId ∨ w.machine.complete next = true
  | _ => True

/-- What `run_state` has returned. -/
def Machine.pending (m : Machine ι) : Option ι :=
  match m.control with
  | .drain next | .callback next | .waitTimers next => next
  | _ => none

/-- In a state. -/
def Machine.Busy (m : Machine ι) : Prop :=
  m.control ≠ .startup ∧ m.control ≠ .top ∧ m.control ≠ .halted

/-- At the end of the walk, where no code is called any more. -/
def Machine.Stopping (m : Machine ι) : Prop :=
  m.control = .halted ∨ m.control = .top ∧ m.complete m.stateId = true

/-- What a step can do to the counts, to `current_phase` and to what was left. -/
inductive Move (e : Event ι) (w w' : Watch ι) : Prop where
  | call
      (foreign : w.machine.control.IsForeign = true)
      (blockers : ∀ x, Precedes x w.machine.phase → w'.machine.blockers x = w.machine.blockers x)
      (complete : w'.machine.complete = w.machine.complete)
      (phase : w'.machine.phase = w.machine.phase)
      (control : w'.machine.control = w.machine.control)
      (left : w'.left = w.left)
      (ran : w'.ran = w.ran)
  | inside
      (blockers : w'.machine.blockers = w.machine.blockers)
      (complete : w'.machine.complete = w.machine.complete)
      (phase : w'.machine.phase = w.machine.phase)
      (stopping : w.machine.Stopping → w'.machine.Stopping)
      (busy : w'.machine.Busy → w.machine.Busy ∨ w.machine.complete w.machine.stateId = false)
      (pending : ∀ next, w'.machine.pending = some next →
        w.machine.pending = some next ∨ e = .return_ next ∧ w.machine.control = .runState)
      (left : w'.left = w.left)
      (ran : w'.ran = w.ran)
  | entryDone
      (before : w.machine.control = .drain none)
      (free : w.machine.blockers w.machine.phase = 0)
      (machine : w'.machine = { w.machine with seq := .onExit, control := .runState })
      (left : w'.left = w.left ++ [w.machine.phase])
      (ran : w'.ran = w.ran ++ [w.machine.stateId])
  | exitDone (next : ι)
      (before : w.machine.control = .drain (some next))
      (free : w.machine.blockers w.machine.phase = 0)
      (machine : w'.machine = { w.machine with
        stateId := next
        seq := .onEntry
        complete := Function.update w.machine.complete w.machine.stateId true
        control := .top })
      (left : w'.left = w.left ++ [w.machine.phase])
      (ran : w'.ran = w.ran)

section Steps

variable {w w' : Watch ι} {e : Event ι}

omit [LinearOrder ι] in
/-- Where no phase is left, nothing is noted. -/
private lemma noted_eq {m : Machine ι} (hleaves : leaves w.machine e = none) :
    (⟨m, w.left ++ (leaves w.machine e).toList, w.ran ++ (runs w.machine e).toList⟩ : Watch ι) =
      ⟨m, w.left, w.ran⟩ := by
  have hruns : runs w.machine e = none := by
    rw [runs, hleaves]
    split <;> rfl
  rw [hleaves, hruns, Option.toList_none, Option.toList_none, List.append_nil, List.append_nil]

private lemma move_call {m : Machine ι} (hforeign : w.machine.control.IsForeign = true)
    (hblockers : ∀ x, Precedes x w.machine.phase → m.blockers x = w.machine.blockers x)
    (hcomplete : m.complete = w.machine.complete) (hphase : m.phase = w.machine.phase)
    (hcontrol : m.control = w.machine.control) (hleaves : leaves w.machine e = none) :
    Move e w ⟨m, w.left ++ (leaves w.machine e).toList, w.ran ++ (runs w.machine e).toList⟩ := by
  rw [noted_eq hleaves]
  exact .call hforeign hblockers hcomplete hphase hcontrol rfl rfl

private lemma move_return {next : ι} {m : Machine ι} (hm : w.machine.returnStep next = some m) :
    Move (.return_ next) w ⟨m, w.left, w.ran⟩ := by
  cases hcontrol : w.machine.control with
  | entryTimers | callback n | waitTimers n | runState =>
    simp only [Machine.returnStep, hcontrol, Option.some.injEq] at hm
    subst hm
    refine .inside rfl rfl rfl ?_ ?_ ?_ rfl rfl
    · simp [Machine.Stopping, hcontrol]
    · simp [Machine.Busy, hcontrol]
    · simp [Machine.pending, hcontrol]
  | _ => simp [Machine.returnStep, hcontrol] at hm

private lemma move_drain {next : Option ι} (hcontrol : w.machine.control = .drain next) :
    Move .walk w ⟨w.machine.drainStep next, w.left ++ (leaves w.machine .walk).toList,
      w.ran ++ (runs w.machine .walk).toList⟩ := by
  have hbusy : w.machine.Busy := by simp [Machine.Busy, hcontrol]
  have hgoing : ¬ w.machine.Stopping := by simp [Machine.Stopping, hcontrol]
  cases hcallbacks : (w.machine.phases w.machine.stateId w.machine.seq).callbacks with
  | cons bscb rest =>
    have hleaves : leaves w.machine .walk = none := by simp [leaves, hcontrol, hcallbacks]
    rw [noted_eq hleaves]
    simp only [Machine.drainStep, hcallbacks]
    refine .inside (funext fun x => ?_) rfl rfl (fun h => absurd h hgoing) (fun _ => .inl hbusy) ?_
      rfl rfl
    · -- the count of the phase is kept
      change (w.machine.setPhase w.machine.stateId w.machine.seq _).blockers x = _
      rw [blockers_setPhase]
      split_ifs with hx
      · rw [hx]
        rfl
      · rfl
    · intro n hn
      exact .inl (by simpa [Machine.pending, hcontrol] using hn)
  | nil =>
    by_cases hfree : (w.machine.phases w.machine.stateId w.machine.seq).blockers = 0
    · have hleaves : leaves w.machine .walk = some w.machine.phase := by
        simp [leaves, hcontrol, hcallbacks, hfree]
      cases next with
      | none =>
        refine .entryDone hcontrol hfree ?_ (by rw [hleaves]; rfl) ?_
        · simp [Machine.drainStep, hcallbacks, hfree]
        · simp only [runs, hcontrol, hleaves]
          rfl
      | some next =>
        refine .exitDone next hcontrol hfree ?_ (by rw [hleaves]; rfl) ?_
        · simp [Machine.drainStep, hcallbacks, hfree]
        · simp only [runs, hcontrol, Option.toList_none, List.append_nil]
    · have hleaves : leaves w.machine .walk = none := by simp [leaves, hcontrol, hfree]
      rw [noted_eq hleaves]
      simp only [Machine.drainStep, hcallbacks, if_pos hfree]
      refine .inside rfl rfl rfl (fun h => absurd h hgoing) (fun _ => .inl hbusy) ?_ rfl rfl
      intro n hn
      exact .inl (by simpa [Machine.pending, hcontrol] using hn)

private lemma move_walk {m : Machine ι} (hm : w.machine.walkStep = some m) :
    Move .walk w ⟨m, w.left ++ (leaves w.machine .walk).toList,
      w.ran ++ (runs w.machine .walk).toList⟩ := by
  cases hcontrol : w.machine.control with
  | drain next =>
    simp only [Machine.walkStep, hcontrol, Option.some.injEq] at hm
    rw [← hm]
    exact move_drain hcontrol
  | startup =>
    simp only [Machine.walkStep, hcontrol, Option.some.injEq] at hm
    subst hm
    simp only [leaves, runs, hcontrol, Option.toList_none, List.append_nil]
    refine .inside rfl rfl rfl ?_ ?_ ?_ rfl rfl
    · simp [Machine.Stopping, hcontrol]
    · simp [Machine.Busy]
    · simp [Machine.pending]
  | top =>
    simp only [Machine.walkStep, hcontrol] at hm
    simp only [leaves, runs, hcontrol, Option.toList_none, List.append_nil]
    split_ifs at hm with hcomplete
    · cases hm
      refine .inside rfl rfl rfl ?_ ?_ ?_ rfl rfl
      · simp [Machine.Stopping]
      · simp [Machine.Busy]
      · simp [Machine.pending]
    · cases hm
      refine .inside rfl rfl rfl ?_ ?_ ?_ rfl rfl
      · simp [Machine.Stopping, hcontrol, hcomplete]
      · exact fun _ => .inr (by simpa using hcomplete)
      · simp [Machine.pending]
  | _ => simp [Machine.walkStep, hcontrol] at hm

lemma Watch.step_move (hstep : w.step e = some w') : Move e w w' := by
  obtain ⟨m, hm, rfl⟩ := Option.map_eq_some_iff.mp hstep
  cases e with
  | sched bscb state seq =>
    simp only [BootState.step] at hm
    split_ifs at hm with hforeign
    cases hm
    rw [bootStateSchedCallback]
    split_ifs
    · exact move_call hforeign (fun _ _ => rfl) rfl rfl rfl rfl
    · refine move_call hforeign (fun x _ => ?_) rfl rfl rfl rfl
      rw [blockers_setPhase]
      split_ifs with hx
      · rw [hx]
        rfl
      · rfl
  | block state seq =>
    simp only [BootState.step] at hm
    split_ifs at hm with hforeign
    cases hm
    have hsame : (bootStateBlock w.machine state seq).1.complete = w.machine.complete ∧
        (bootStateBlock w.machine state seq).1.phase = w.machine.phase ∧
        (bootStateBlock w.machine state seq).1.control = w.machine.control := by
      rw [bootStateBlock]
      split_ifs <;> exact ⟨rfl, rfl, rfl⟩
    exact move_call hforeign (fun x hx => blockers_block w.machine state seq hx) hsame.1 hsame.2.1
      hsame.2.2 rfl
  | unblock state seq =>
    simp only [BootState.step] at hm
    split_ifs at hm with hforeign
    cases hm
    have hsame : (bootStateUnblock w.machine state seq).1.complete = w.machine.complete ∧
        (bootStateUnblock w.machine state seq).1.phase = w.machine.phase ∧
        (bootStateUnblock w.machine state seq).1.control = w.machine.control := by
      rw [bootStateUnblock]
      dsimp only
      split_ifs <;> exact ⟨rfl, rfl, rfl⟩
    exact move_call hforeign (fun x hx => blockers_unblock w.machine state seq hx) hsame.1
      hsame.2.1 hsame.2.2 rfl
  | return_ next =>
    rw [noted_eq rfl]
    exact move_return hm
  | walk => exact move_walk hm

lemma Watch.step_inPlace (hplace : w.machine.InPlace) (hstep : w.step e = some w') :
    w'.machine.InPlace := by
  obtain ⟨m, hm, rfl⟩ := Option.map_eq_some_iff.mp hstep
  have hhistory : (⟨w.machine, []⟩ : History ι).step e = some ⟨m, [] ++ observe w.machine e⟩ := by
    rw [History.step, hm]
    rfl
  exact (History.step_effect hplace hhistory).2

end Steps

/-! ### Every run -/

/-- `run_state` has been called for completed states, and for the current one behind its entry. -/
structure Once (w : Watch ι) : Prop where
  inPlace : w.machine.InPlace
  nodup : w.ran.Nodup
  ran : ∀ s ∈ w.ran, w.machine.complete s = true ∨
    s = w.machine.stateId ∧ w.machine.seq = .onExit
  busy : w.machine.Busy → w.machine.complete w.machine.stateId = false

section Once

variable {w w' : Watch ι} {e : Event ι}

omit [LinearOrder ι] in
lemma phase_eq {m m' : Machine ι} (h : m'.phase = m.phase) :
    m'.stateId = m.stateId ∧ m'.seq = m.seq := Prod.mk.inj h

lemma Once.step (h : Once w) (hstep : w.step e = some w') : Once w' := by
  have hplace := Watch.step_inPlace h.inPlace hstep
  cases Watch.step_move hstep with
  | call foreign blockers complete phase control left ran =>
    obtain ⟨hstate, hseq⟩ := phase_eq phase
    refine ⟨hplace, by rw [ran]; exact h.nodup, ?_, ?_⟩
    · rw [ran, complete, hstate, hseq]
      exact h.ran
    · rw [Machine.Busy, control, complete, hstate]
      exact h.busy
  | inside blockers complete phase stopping busy pending left ran =>
    obtain ⟨hstate, hseq⟩ := phase_eq phase
    refine ⟨hplace, by rw [ran]; exact h.nodup, ?_, ?_⟩
    · rw [ran, complete, hstate, hseq]
      exact h.ran
    · rw [complete, hstate]
      exact fun hbusy => (busy hbusy).elim h.busy id
  | entryDone before free machine left ran =>
    have hentry : w.machine.seq = .onEntry := by simpa [Machine.InPlace, before] using h.inPlace
    have hopen : w.machine.complete w.machine.stateId = false :=
      h.busy (by simp [Machine.Busy, before])
    have hnew : w.machine.stateId ∉ w.ran := by
      intro hmem
      rcases h.ran _ hmem with hcomplete | ⟨-, hexit⟩
      · simp [hopen] at hcomplete
      · simp [hentry] at hexit
    refine ⟨hplace, ?_, ?_, ?_⟩
    · rw [ran, ← List.concat_eq_append]
      exact h.nodup.concat hnew
    · rw [ran, machine]
      intro s hs
      rcases List.mem_append.mp hs with hs | hs
      · exact (h.ran s hs).imp id fun hcurrent => ⟨hcurrent.1, rfl⟩
      · exact .inr ⟨List.mem_singleton.mp hs, rfl⟩
    · rw [machine]
      exact fun _ => hopen
  | exitDone next before free machine left ran =>
    refine ⟨hplace, by rw [ran]; exact h.nodup, ?_, ?_⟩
    · rw [ran, machine]
      intro s hs
      left
      dsimp only
      rw [Function.update_apply]
      split_ifs with hcurrent
      · rfl
      · exact (h.ran s hs).resolve_right fun hs => hcurrent hs.1
    · rw [machine]
      exact fun hbusy => absurd rfl hbusy.2.1

omit [LinearOrder ι] in
lemma Once.init (first : ι) : Once (Watch.init first) :=
  ⟨rfl, List.nodup_nil, fun _ hs => absurd hs List.not_mem_nil, fun hbusy => absurd rfl hbusy.1⟩

end Once

/-- The phases that were left are not blocked, and precede the current one until the walk ends. -/
structure Clear (w : Watch ι) : Prop where
  free : ∀ x ∈ w.left, w.machine.blockers x = 0
  past : ¬ w.machine.Stopping → ∀ x ∈ w.left, Precedes x w.machine.phase
  ahead : ∀ next, w.machine.pending = some next → w.machine.stateId < next ∨
    next = w.machine.stateId ∨ w.machine.complete next = true

section Clear

variable {w w' : Watch ι} {e : Event ι}

omit [LinearOrder ι] in
lemma not_stopping_of_foreign {m : Machine ι} (h : m.control.IsForeign = true) :
    ¬ m.Stopping := by
  rintro (hhalted | ⟨htop, -⟩)
  · rw [hhalted] at h
    exact Bool.false_ne_true h
  · rw [htop] at h
    exact Bool.false_ne_true h

lemma Precedes.le {x y : ι × BootStateSequence} (h : Precedes x y) : x.1 ≤ y.1 :=
  h.elim le_of_lt fun hsame => hsame.1.le

/-- What precedes the entry of a state, or is the entry, precedes its exit. -/
lemma Precedes.exit {x : ι × BootStateSequence} {s : ι}
    (h : Precedes x (s, .onEntry) ∨ x = (s, .onEntry)) : Precedes x (s, .onExit) := by
  rcases h with (hlt | ⟨-, -, habsurd⟩) | rfl
  · exact .inl hlt
  · cases habsurd
  · exact .inr ⟨rfl, rfl, rfl⟩

lemma Clear.step (h : Clear w) (honce : Once w) (hup : Ascending w e)
    (hstep : w.step e = some w') : Clear w' := by
  cases Watch.step_move hstep with
  | call foreign blockers complete phase control left ran =>
    have hpast := h.past (not_stopping_of_foreign foreign)
    obtain ⟨hstate, -⟩ := phase_eq phase
    refine ⟨?_, ?_, ?_⟩
    · rw [left]
      intro x hx
      rw [blockers x (hpast x hx)]
      exact h.free x hx
    · rw [left, phase]
      exact fun _ => hpast
    · rw [Machine.pending, control, complete, hstate]
      exact h.ahead
  | inside blockers complete phase stopping busy pending left ran =>
    obtain ⟨hstate, -⟩ := phase_eq phase
    refine ⟨?_, ?_, ?_⟩
    · rw [left, blockers]
      exact h.free
    · rw [left, phase]
      exact fun hgoing => h.past fun hstopping => hgoing (stopping hstopping)
    · rw [complete, hstate]
      intro next hnext
      rcases pending next hnext with hold | ⟨rfl, hrun⟩
      · exact h.ahead next hold
      · exact hup hrun
  | entryDone before free machine left ran =>
    have hentry : w.machine.seq = .onEntry := by
      simpa [Machine.InPlace, before] using honce.inPlace
    have hpast := h.past (by simp [Machine.Stopping, before])
    have hphase : w.machine.phase = (w.machine.stateId, .onEntry) := by rw [Machine.phase, hentry]
    rw [hphase] at hpast left free
    refine ⟨?_, ?_, ?_⟩
    · rw [left, machine]
      intro x hx
      rcases List.mem_append.mp hx with hx | hx
      · exact h.free x hx
      · rw [List.mem_singleton.mp hx]
        exact free
    · rw [left, machine]
      intro _ x hx
      refine Precedes.exit ?_
      rcases List.mem_append.mp hx with hx | hx
      · exact .inl (hpast x hx)
      · exact .inr (List.mem_singleton.mp hx)
    · rw [machine]
      intro next hnext
      simp [Machine.pending] at hnext
  | exitDone next before free machine left ran =>
    have hpast := h.past (by simp [Machine.Stopping, before])
    refine ⟨?_, ?_, ?_⟩
    · rw [left, machine]
      intro x hx
      rcases List.mem_append.mp hx with hx | hx
      · exact h.free x hx
      · rw [List.mem_singleton.mp hx]
        exact free
    · rw [left, machine]
      intro hgoing x hx
      -- the walk goes on, so that the next state is a later one
      have hlater : w.machine.stateId < next := by
        have hopen : Function.update w.machine.complete w.machine.stateId true next ≠ true :=
          fun hcomplete => hgoing (.inr ⟨rfl, hcomplete⟩)
        rw [Function.update_apply] at hopen
        split_ifs at hopen with hsame
        · exact absurd rfl hopen
        · rcases h.ahead next (by simp [Machine.pending, before]) with hlt | rfl | hcomplete
          · exact hlt
          · exact absurd rfl hsame
          · exact absurd hcomplete hopen
      have hle : x.1 ≤ w.machine.stateId := by
        rcases List.mem_append.mp hx with hx | hx
        · exact (hpast x hx).le
        · rw [List.mem_singleton.mp hx]
          rfl
      exact .inl (hle.trans_lt hlater)
    · rw [machine]
      intro n hn
      simp [Machine.pending] at hn

lemma Clear.init (first : ι) : Clear (Watch.init first) :=
  ⟨fun _ hx => absurd hx List.not_mem_nil, fun _ _ hx => absurd hx List.not_mem_nil,
    fun next hnext => by simp [Watch.init, Machine.init, Machine.pending] at hnext⟩

end Clear

/-- In every run, `run_state` is called at most once for a state, and the calls keep their laws; if
the walk goes up through the states, the phases it has left are not blocked, and precede the current
one whenever code is called. -/
theorem run_lawful (first : ι) (events : List (Event ι)) (w : Watch ι)
    (hrun : exec Watch.step (.init first) events = some w) :
    w.ran.Nodup ∧ BlockLaw w.machine ∧ UnblockLaw w.machine ∧
      (Meets Watch.step Ascending (.init first) events →
        (∀ x ∈ w.left, w.machine.blockers x = 0) ∧
          (w.machine.control.IsForeign = true → ∀ x ∈ w.left, Precedes x w.machine.phase)) := by
  have honce : Once w :=
    invariant (I := Once) (fun _ _ _ h hstep => h.step hstep) (Once.init first) hrun
  refine ⟨honce.nodup, blockLaw _, unblockLaw _, fun hup => ?_⟩
  have hclear : Once w ∧ Clear w := by
    refine invariant_of_meets (I := fun w => Once w ∧ Clear w) (fun w e w' h hG hstep => ?_)
      ⟨Once.init first, Clear.init first⟩ hup hrun
    exact ⟨h.1.step hstep, h.2.step h.1 hG hstep⟩
  exact ⟨hclear.2.free, fun hforeign => hclear.2.past (not_stopping_of_foreign hforeign)⟩

instance (w : Watch ι) : (e : Event ι) → Decidable (Ascending w e)
  | .return_ next => inferInstanceAs (Decidable (w.machine.control = .runState →
      w.machine.stateId < next ∨ next = w.machine.stateId ∨ w.machine.complete next = true))
  | .sched _ _ _ | .block _ _ | .unblock _ _ | .walk => .isTrue trivial

/-- The first state is walked through, and its callback blocks the next one meanwhile. -/
private def blocked : List (Event BootStateId) :=
  [.sched 1 .preDevice .onExit, .walk, .walk, .return_ .preDevice, .walk, .return_ .devInitChips,
    .walk, .block .devInitChips .onEntry, .return_ .preDevice, .walk]

theorem run_lawful_blocked : ∃ w : Watch BootStateId,
    exec Watch.step (.init .preDevice) blocked = some w ∧
      w.machine.blockers (.devInitChips, .onEntry) = 1 ∧ w.ran.Nodup ∧
      (∀ x ∈ w.left, w.machine.blockers x = 0) := by
  have hup : Meets Watch.step Ascending (.init .preDevice) blocked := by decide
  have hcount : (exec Watch.step (.init .preDevice) blocked).map
      (fun w => w.machine.blockers (.devInitChips, .onEntry)) = some 1 := by decide
  obtain ⟨w, hrun, hone⟩ := Option.map_eq_some_iff.mp hcount
  have hlaw := run_lawful _ _ w hrun
  exact ⟨w, hrun, hone, hlaw.1, (hlaw.2.2.2 hup).1⟩

/-! ### A walk down -/

/-- The returns of `run_state` follow the state graph. -/
def Follows (graph : ι → ι → Prop) (w : Watch ι) : Event ι → Prop
  | .return_ next => w.machine.control = .runState → graph w.machine.stateId next
  | _ => True

/-- From the first state to the third, and from there to the second. -/
private def descending (s t : BootStateId) : Prop :=
  s = .preDevice ∧ t = .devEnumerate ∨ s = .devEnumerate ∧ t = .devInitChips

private instance (s t : BootStateId) : Decidable (descending s t) :=
  inferInstanceAs (Decidable (_ ∨ _))

private instance (w : Watch BootStateId) : (e : Event BootStateId) →
    Decidable (Follows descending w e)
  | .return_ next => inferInstanceAs (Decidable (w.machine.control = .runState →
      descending w.machine.stateId next))
  | .sched _ _ _ | .block _ _ | .unblock _ _ | .walk => .isTrue trivial

private lemma descending_acyclic (s : BootStateId) : ¬ Relation.TransGen descending s s := by
  have hrank : ∀ s t, Relation.TransGen descending s t →
      (s = .preDevice ∧ t ≠ .preDevice) ∨ (s = .devEnumerate ∧ t = .devInitChips) := by
    intro s t h
    induction h with
    | single h =>
      rcases h with ⟨rfl, rfl⟩ | ⟨rfl, rfl⟩
      · exact .inl ⟨rfl, by decide⟩
      · exact .inr ⟨rfl, rfl⟩
    | tail _ h ih =>
      rcases h with ⟨rfl, rfl⟩ | ⟨rfl, rfl⟩
      · rcases ih with ⟨-, hne⟩ | ⟨-, hne⟩
        · exact absurd rfl hne
        · exact absurd hne (by decide)
      · rcases ih with ⟨rfl, -⟩ | ⟨-, hne⟩
        · exact .inl ⟨rfl, by decide⟩
        · exact absurd hne (by decide)
  intro h
  rcases hrank s s h with ⟨rfl, hne⟩ | ⟨rfl, hne⟩
  · exact hne rfl
  · exact absurd hne (by decide)

/-- `run_state` of the state that comes last blocks the one before it, which has a larger id. -/
private def blockedBelow : List (Event BootStateId) :=
  [.walk, .walk, .return_ .preDevice, .walk, .return_ .devEnumerate, .walk, .walk,
    .return_ .preDevice, .walk, .return_ .devInitChips, .walk, .walk, .return_ .preDevice, .walk,
    .block .devEnumerate .onEntry]

/-- The state graph has no cycles, and a phase is blocked after it was left. -/
theorem not_clear_descending :
    ¬ ∀ graph : BootStateId → BootStateId → Prop, (∀ s, ¬ Relation.TransGen graph s s) →
      ∀ (events : List (Event BootStateId)) (w : Watch BootStateId),
        exec Watch.step (.init .preDevice) events = some w →
          Meets Watch.step (Follows graph) (.init .preDevice) events →
            ∀ x ∈ w.left, w.machine.blockers x = 0 := by
  intro hall
  have hcount : (exec Watch.step (.init .preDevice) blockedBelow).map
      (fun w => (decide ((.devEnumerate, .onEntry) ∈ w.left),
        w.machine.blockers (.devEnumerate, .onEntry))) = some (true, 1) := by decide
  obtain ⟨w, hrun, hw⟩ := Option.map_eq_some_iff.mp hcount
  obtain ⟨hleft, hone⟩ := Prod.mk.inj hw
  have hzero := hall descending descending_acyclic blockedBelow w hrun (by decide) _
    (of_decide_eq_true hleft)
  rw [hone] at hzero
  exact absurd hzero one_ne_zero

end ApuBios.BootState
