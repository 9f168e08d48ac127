import ApuBios.Lib.BootState.Basic

/-!
# Callbacks of the boot state machine

Scheduling is refused for completed states only. A callback scheduled for the entry of the
current state after the entry phase has been drained is accepted and never called
(`not_runsOnce_of_late_entry`). In runs without such calls every accepted callback is called
exactly once, in its own phase (`runsOnce_of_inTime`).
-/

namespace ApuBios.BootState

open Transition

variable {ι : Type*} [LinearOrder ι]

/-! ### What a step does -/

def Machine.callbacks (m : Machine ι) (state : ι) (seq : BootStateSequence) : List Callback :=
  (m.phases state seq).callbacks

lemma callbacks_setPhase (m : Machine ι) (state : ι) (seq : BootStateSequence) (p : BootPhase)
    (s : ι) (q : BootStateSequence) :
    (m.setPhase state seq p).callbacks s q =
      if s = state ∧ q = seq then p.callbacks else m.callbacks s q := by
  simp only [Machine.callbacks, Machine.setPhase, Function.update_apply]
  by_cases hs : s = state
  · subst hs
    by_cases hq : q = seq <;> simp [hq]
  · simp [hs]

/-- The phase that `current_phase` names fits the position of the walk. -/
def Machine.InPlace (m : Machine ι) : Prop :=
  match m.control with
  | .startup | .top | .entryTimers | .drain none | .callback none | .waitTimers none =>
    m.seq = .onEntry
  | .runState | .drain (some _) | .callback (some _) | .waitTimers (some _) => m.seq = .onExit
  | .halted => True

/-- Everything a step can do to the callback lists, to `current_phase` and to the log. -/
inductive Effect (e : Event ι) (h h' : History ι) : Prop where
  | quiet
      (callbacks : h'.machine.callbacks = h.machine.callbacks)
      (complete : h'.machine.complete = h.machine.complete)
      (stateId : h'.machine.stateId = h.machine.stateId)
      (seq : h'.machine.seq = h.machine.seq)
      (log : h'.log = h.log ∨ h'.log = h.log ++ [.entered h.machine.stateId])
  | scheduled (bscb : Callback) (state : ι) (sq : BootStateSequence)
      (event : e = .sched bscb state sq)
      (isOpen : h.machine.complete state = false)
      (callbacks : ∀ s q, h'.machine.callbacks s q =
        if s = state ∧ q = sq then bscb :: h.machine.callbacks state sq else h.machine.callbacks s q)
      (complete : h'.machine.complete = h.machine.complete)
      (stateId : h'.machine.stateId = h.machine.stateId)
      (seq : h'.machine.seq = h.machine.seq)
      (log : h'.log = h.log ++ [.scheduled bscb state sq])
  | executed (bscb : Callback) (rest : List Callback)
      (first : h.machine.callbacks h.machine.stateId h.machine.seq = bscb :: rest)
      (callbacks : ∀ s q, h'.machine.callbacks s q =
        if s = h.machine.stateId ∧ q = h.machine.seq then rest else h.machine.callbacks s q)
      (complete : h'.machine.complete = h.machine.complete)
      (stateId : h'.machine.stateId = h.machine.stateId)
      (seq : h'.machine.seq = h.machine.seq)
      (log : h'.log = h.log ++ [.executed bscb h.machine.stateId h.machine.seq])
  | entryDone
      (current : h.machine.seq = .onEntry)
      (drained : h.machine.callbacks h.machine.stateId .onEntry = [])
      (callbacks : h'.machine.callbacks = h.machine.callbacks)
      (complete : h'.machine.complete = h.machine.complete)
      (stateId : h'.machine.stateId = h.machine.stateId)
      (seq : h'.machine.seq = .onExit)
      (log : h'.log = h.log)
  | exitDone
      (current : h.machine.seq = .onExit)
      (drained : h.machine.callbacks h.machine.stateId .onExit = [])
      (callbacks : h'.machine.callbacks = h.machine.callbacks)
      (complete : h'.machine.complete = Function.update h.machine.complete h.machine.stateId true)
      (seq : h'.machine.seq = .onEntry)
      (log : h'.log = h.log ++ [.left h.machine.stateId])

/-- Changing the blockers of a phase changes none of what matters here. -/
private lemma Effect.of_blockers (e : Event ι) {h : History ι} (state : ι) (seq : BootStateSequence)
    (n : ℕ) :
    Effect e h ⟨h.machine.setPhase state seq { h.machine.phases state seq with blockers := n },
      h.log⟩ := by
  refine .quiet (funext fun s => funext fun q => ?_) rfl rfl rfl (Or.inl rfl)
  rw [callbacks_setPhase]
  split_ifs with hsq
  · rw [hsq.1, hsq.2]
    rfl
  · rfl

private lemma Effect.refl (e : Event ι) (h : History ι) : Effect e h h := .quiet rfl rfl rfl rfl (Or.inl rfl)

private lemma effect_sched {h : History ι} (hplace : h.machine.InPlace) (bscb : Callback)
    (state : ι) (seq : BootStateSequence) :
    Effect (.sched bscb state seq) h ⟨(bootStateSchedCallback h.machine state bscb seq).1,
        h.log ++ observe h.machine (.sched bscb state seq)⟩ ∧
      (bootStateSchedCallback h.machine state bscb seq).1.InPlace := by
  by_cases hcomplete : h.machine.complete state = true
  · have hsame : bootStateSchedCallback h.machine state bscb seq = (h.machine, -1) :=
      if_pos hcomplete
    have hlog : observe h.machine (.sched bscb state seq) = [] := by simp [observe, hsame]
    rw [hlog, hsame, List.append_nil]
    exact ⟨.refl _ h, hplace⟩
  · have hnew : bootStateSchedCallback h.machine state bscb seq =
        (h.machine.setPhase state seq { h.machine.phases state seq with
          callbacks := bscb :: h.machine.callbacks state seq }, 0) := if_neg hcomplete
    have hlog : observe h.machine (.sched bscb state seq) = [.scheduled bscb state seq] := by
      simp [observe, hnew]
    rw [hlog, hnew]
    refine ⟨.scheduled bscb state seq rfl (by simpa using hcomplete) (fun s q => ?_) rfl rfl rfl rfl,
      hplace⟩
    rw [callbacks_setPhase]

private lemma effect_block {h : History ι} (hplace : h.machine.InPlace) (state : ι)
    (seq : BootStateSequence) :
    Effect (.block state seq) h ⟨(bootStateBlock h.machine state seq).1, h.log⟩ ∧
      (bootStateBlock h.machine state seq).1.InPlace := by
  rw [bootStateBlock]
  split_ifs
  · exact ⟨.refl _ h, hplace⟩
  · exact ⟨.of_blockers _ state seq _, hplace⟩

private lemma effect_unblock {h : History ι} (hplace : h.machine.InPlace) (state : ι)
    (seq : BootStateSequence) :
    Effect (.unblock state seq) h ⟨(bootStateUnblock h.machine state seq).1, h.log⟩ ∧
      (bootStateUnblock h.machine state seq).1.InPlace := by
  rw [bootStateUnblock]
  split_ifs
  · exact ⟨.refl _ h, hplace⟩
  · simp only
    split_ifs
    · exact ⟨.refl _ h, hplace⟩
    · exact ⟨.of_blockers _ state seq _, hplace⟩

private lemma effect_return {h : History ι} (hplace : h.machine.InPlace) {next : ι} {m : Machine ι}
    (hm : h.machine.returnStep next = some m) :
    Effect (.return_ next) h ⟨m, h.log⟩ ∧ m.InPlace := by
  simp only [Machine.InPlace] at hplace
  cases hcontrol : h.machine.control with
  | entryTimers | runState =>
    simp only [Machine.returnStep, hcontrol, Option.some.injEq] at hm hplace
    subst hm
    exact ⟨.quiet rfl rfl rfl rfl (Or.inl rfl), hplace⟩
  | callback n | waitTimers n =>
    simp only [Machine.returnStep, hcontrol, Option.some.injEq] at hm hplace
    subst hm
    refine ⟨.quiet rfl rfl rfl rfl (Or.inl rfl), ?_⟩
    cases n <;> exact hplace
  | _ => simp [Machine.returnStep, hcontrol] at hm

private lemma effect_drain {h : History ι} {next : Option ι} (hplace : h.machine.InPlace)
    (hcontrol : h.machine.control = .drain next) :
    Effect .walk h ⟨h.machine.drainStep next, h.log ++ observe h.machine .walk⟩ ∧
      (h.machine.drainStep next).InPlace := by
  simp only [Machine.InPlace, hcontrol] at hplace
  simp only [observe, hcontrol, Machine.drainStep]
  cases hcallbacks : (h.machine.phases h.machine.stateId h.machine.seq).callbacks with
  | cons bscb rest =>
    refine ⟨.executed bscb rest hcallbacks (fun s q => ?_) rfl rfl rfl rfl, ?_⟩
    · exact callbacks_setPhase _ _ _ _ s q
    · cases next <;> exact hplace
  | nil =>
    by_cases hblocked : (h.machine.phases h.machine.stateId h.machine.seq).blockers = 0
    · cases next with
      | none =>
        have hseq : h.machine.seq = .onEntry := hplace
        simp only [hblocked, ne_eq, not_true_eq_false, if_false, List.append_nil]
        exact ⟨.entryDone hseq (hseq ▸ hcallbacks) rfl rfl rfl rfl rfl, rfl⟩
      | some nextId =>
        have hseq : h.machine.seq = .onExit := hplace
        simp only [hblocked, ne_eq, not_true_eq_false, if_false]
        exact ⟨.exitDone hseq (hseq ▸ hcallbacks) rfl rfl rfl rfl, rfl⟩
    · cases next with
      | none =>
        simp only [hblocked, ne_eq, not_false_eq_true, if_true, List.append_nil]
        exact ⟨.quiet rfl rfl rfl rfl (Or.inl rfl), hplace⟩
      | some nextId =>
        simp only [hblocked, ne_eq, not_false_eq_true, if_true, List.append_nil]
        exact ⟨.quiet rfl rfl rfl rfl (Or.inl rfl), hplace⟩

private lemma effect_walk {h : History ι} (hplace : h.machine.InPlace) {m : Machine ι}
    (hm : h.machine.walkStep = some m) :
    Effect .walk h ⟨m, h.log ++ observe h.machine .walk⟩ ∧ m.InPlace := by
  cases hcontrol : h.machine.control with
  | drain next =>
    rw [Machine.walkStep, hcontrol] at hm
    cases hm
    exact effect_drain hplace hcontrol
  | startup =>
    simp only [Machine.walkStep, Machine.InPlace, hcontrol, Option.some.injEq] at hm hplace
    subst hm
    exact ⟨.quiet rfl rfl rfl rfl (Or.inl (by simp [observe, hcontrol])), hplace⟩
  | top =>
    simp only [Machine.walkStep, Machine.InPlace, hcontrol] at hm hplace
    split_ifs at hm with hcomplete
    · cases hm
      exact ⟨.quiet rfl rfl rfl rfl (Or.inl (by simp [observe, hcontrol, hcomplete])), trivial⟩
    · cases hm
      exact ⟨.quiet rfl rfl rfl rfl (Or.inr (by simp [observe, hcontrol, hcomplete])), hplace⟩
  | _ => simp [Machine.walkStep, hcontrol] at hm

/-- A step has one of the effects, and leaves the walk in place. -/
lemma History.step_effect {h h' : History ι} {e : Event ι} (hplace : h.machine.InPlace)
    (hstep : h.step e = some h') : Effect e h h' ∧ h'.machine.InPlace := by
  obtain ⟨m, hm, rfl⟩ := Option.map_eq_some_iff.mp hstep
  cases e with
  | sched bscb state seq =>
    simp only [BootState.step] at hm
    split_ifs at hm
    cases hm
    exact effect_sched hplace bscb state seq
  | block state seq =>
    simp only [BootState.step] at hm
    split_ifs at hm
    cases hm
    simpa [observe] using effect_block hplace state seq
  | unblock state seq =>
    simp only [BootState.step] at hm
    split_ifs at hm
    cases hm
    simpa [observe] using effect_unblock hplace state seq
  | return_ next => simpa [observe] using effect_return hplace hm
  | walk => exact effect_walk hplace hm

/-! ### The fate of a scheduled callback -/

/-- `bscb` is scheduled again in the log. -/
def Rescheduled (bscb : Callback) (log : List (Observation ι)) : Prop :=
  ∃ s q, .scheduled bscb s q ∈ log

/-- An observation that counts as an execution of `bscb`. -/
private def execution (bscb : Callback) : Observation ι → List (ι × BootStateSequence)
  | .executed c s q => if c = bscb then [(s, q)] else []
  | .scheduled _ _ _ | .entered _ | .left _ => []

omit [LinearOrder ι] in
private lemma executions_cons_of_ne (bscb : Callback) {o : Observation ι}
    (ho : ∀ s q, o ≠ .scheduled bscb s q) (log : List (Observation ι)) :
    executions bscb (o :: log) = execution bscb o ++ executions bscb log := by
  cases o with
  | scheduled c s q =>
    have hc : c ≠ bscb := fun hc => ho s q (by rw [hc])
    simp [executions, execution, hc]
  | executed c s q =>
    by_cases hc : c = bscb <;> simp [executions, execution, hc]
  | entered s => rfl
  | left s => rfl

omit [LinearOrder ι] in
/-- What comes after the callback was scheduled again does not count. -/
private lemma executions_append_of_rescheduled {bscb : Callback} {log : List (Observation ι)}
    (h : Rescheduled bscb log) (log' : List (Observation ι)) :
    executions bscb (log ++ log') = executions bscb log := by
  induction log with
  | nil => simp [Rescheduled] at h
  | cons o log ih =>
    by_cases ho : ∃ s q, o = .scheduled bscb s q
    · obtain ⟨s, q, rfl⟩ := ho
      simp [executions]
    · simp only [not_exists] at ho
      obtain ⟨s, q, hmem⟩ := h
      have hmem' : .scheduled bscb s q ∈ log :=
        (List.mem_cons.mp hmem).resolve_left fun heq => ho s q heq.symm
      rw [List.cons_append, executions_cons_of_ne bscb ho, executions_cons_of_ne bscb ho,
        ih ⟨s, q, hmem'⟩]

omit [LinearOrder ι] in
private lemma executions_snoc {bscb : Callback} {log : List (Observation ι)}
    (h : ¬Rescheduled bscb log) (o : Observation ι) :
    executions bscb (log ++ [o]) = executions bscb log ++ execution bscb o := by
  induction log with
  | nil =>
    cases o with
    | scheduled c s q => by_cases hc : c = bscb <;> simp [executions, execution, hc]
    | executed c s q => by_cases hc : c = bscb <;> simp [executions, execution, hc]
    | entered s => rfl
    | left s => rfl
  | cons p log ih =>
    have hp : ∀ s q, p ≠ .scheduled bscb s q := fun s q heq => h ⟨s, q, by simp [heq]⟩
    have hlog : ¬Rescheduled bscb log := fun ⟨s, q, hmem⟩ => h ⟨s, q, by simp [hmem]⟩
    rw [List.cons_append, executions_cons_of_ne bscb hp, executions_cons_of_ne bscb hp, ih hlog,
      List.append_assoc]

/-- What is known about a callback from the moment it was scheduled for `state` and `sq`. -/
structure Fate (h : History ι) (bscb : Callback) (state : ι) (sq : BootStateSequence)
    (after : List (Observation ι)) : Prop where
  /-- called at most once, in its own phase -/
  own : executions bscb after = [] ∨ executions bscb after = [(state, sq)]
  /-- called before its state was left -/
  left : .left state ∈ after → executions bscb after = [(state, sq)]
  /-- called before it was scheduled again -/
  again : Rescheduled bscb after → executions bscb after = [(state, sq)]
  /-- linked into its phase until it is called -/
  waiting : ¬Rescheduled bscb after → executions bscb after = [] →
    bscb ∈ h.machine.callbacks state sq
  /-- linked into no other phase, and into none once it was called -/
  linked : ¬Rescheduled bscb after → ∀ s q, bscb ∈ h.machine.callbacks s q →
    executions bscb after = [] ∧ s = state ∧ q = sq

/-- The invariant of runs in which no callback is scheduled for a phase that has passed. -/
structure Invariant (h : History ι) : Prop where
  inPlace : h.machine.InPlace
  nodup : ∀ s q, (h.machine.callbacks s q).Nodup
  unique : ∀ b s q s' q', b ∈ h.machine.callbacks s q → b ∈ h.machine.callbacks s' q' →
    s = s' ∧ q = q'
  /-- a phase with callbacks has not passed -/
  ahead : ∀ s q, h.machine.callbacks s q ≠ [] → h.machine.complete s = false ∧
    ¬(h.machine.stateId = s ∧ q.toNat < h.machine.seq.toNat)
  complete : ∀ s, .left s ∈ h.log → h.machine.complete s = true
  fate : ∀ before b s q after, h.log = before ++ .scheduled b s q :: after →
    .left s ∉ before ∧ Fate h b s q after

/-- The phase that a scheduling call is for has not passed: `boot_state_sched_callback` only
tests whether the state is complete. -/
def InTime (h : History ι) : Event ι → Prop
  | .sched _ state seq =>
    h.machine.complete state = false →
      ¬(h.machine.stateId = state ∧ seq.toNat < h.machine.seq.toNat)
  | _ => True

namespace Fate

omit [LinearOrder ι]

variable {h h' : History ι} {bscb : Callback} {state : ι} {sq : BootStateSequence}
  {after : List (Observation ι)}

private lemma congr (hf : Fate h bscb state sq after)
    (hcallbacks : h'.machine.callbacks = h.machine.callbacks) : Fate h' bscb state sq after :=
  ⟨hf.own, hf.left, hf.again, hcallbacks ▸ hf.waiting, hcallbacks ▸ hf.linked⟩

private lemma rescheduled_append {o : Observation ι} (hr : Rescheduled bscb after) :
    Rescheduled bscb (after ++ [o]) := by
  obtain ⟨s, q, hmem⟩ := hr
  exact ⟨s, q, by simp [hmem]⟩

/-- Once the callback is scheduled again, nothing that follows concerns the earlier call. -/
private lemma snoc_of_rescheduled (hf : Fate h bscb state sq after) (hr : Rescheduled bscb after)
    (o : Observation ι) : Fate h' bscb state sq (after ++ [o]) := by
  have hexec := executions_append_of_rescheduled hr [o]
  have hran := hexec.trans (hf.again hr)
  exact ⟨Or.inr hran, fun _ => hran, fun _ => hran, fun hn => absurd (rescheduled_append hr) hn,
    fun hn => absurd (rescheduled_append hr) hn⟩

/-- A step that does not concern the callback. -/
private lemma snoc_of_neutral (hf : Fate h bscb state sq after) {o : Observation ι}
    (hsched : ∀ s q, o ≠ .scheduled bscb s q) (hexec : execution bscb o = [])
    (hleft : o = .left state → executions bscb after = [(state, sq)])
    (hmem : ∀ s q, bscb ∈ h'.machine.callbacks s q ↔ bscb ∈ h.machine.callbacks s q) :
    Fate h' bscb state sq (after ++ [o]) := by
  by_cases hr : Rescheduled bscb after
  · exact hf.snoc_of_rescheduled hr o
  have hr' : ¬Rescheduled bscb (after ++ [o]) := by
    rintro ⟨s, q, hin⟩
    rcases List.mem_append.mp hin with hin | hin
    · exact hr ⟨s, q, hin⟩
    · exact hsched s q (List.mem_singleton.mp hin).symm
  have heq : executions bscb (after ++ [o]) = executions bscb after := by
    rw [executions_snoc hr, hexec, List.append_nil]
  refine ⟨heq ▸ hf.own, fun hin => ?_, fun h => absurd h hr', fun _ hnil => ?_, fun _ s q hin => ?_⟩
  · rw [heq]
    rcases List.mem_append.mp hin with hin | hin
    · exact hf.left hin
    · exact hleft (List.mem_singleton.mp hin).symm
  · exact (hmem state sq).mpr (hf.waiting hr (heq ▸ hnil))
  · rw [heq]
    exact hf.linked hr s q ((hmem s q).mp hin)

/-- A callback that is not linked anywhere may be scheduled again: it has been called. -/
private lemma snoc_of_scheduled (hf : Fate h bscb state sq after)
    (hfresh : ∀ s q, bscb ∉ h.machine.callbacks s q) (s : ι) (q : BootStateSequence) :
    Fate h' bscb state sq (after ++ [.scheduled bscb s q]) := by
  by_cases hr : Rescheduled bscb after
  · exact hf.snoc_of_rescheduled hr _
  have hr' : Rescheduled bscb (after ++ [.scheduled bscb s q]) := ⟨s, q, by simp⟩
  have hran : executions bscb (after ++ [.scheduled bscb s q]) = [(state, sq)] := by
    rw [executions_snoc hr, execution, List.append_nil]
    exact hf.own.resolve_left fun hnil => hfresh state sq (hf.waiting hr hnil)
  exact ⟨Or.inr hran, fun _ => hran, fun _ => hran, fun h => absurd hr' h, fun h => absurd hr' h⟩

/-- The callback is taken from the list of its own phase and called. -/
private lemma snoc_of_executed (hf : Fate h bscb state sq after) {s : ι} {q : BootStateSequence}
    (hin : bscb ∈ h.machine.callbacks s q) (hgone : ∀ s q, bscb ∉ h'.machine.callbacks s q) :
    Fate h' bscb state sq (after ++ [.executed bscb s q]) := by
  by_cases hr : Rescheduled bscb after
  · exact hf.snoc_of_rescheduled hr _
  obtain ⟨hnil, rfl, rfl⟩ := hf.linked hr s q hin
  have hran : executions bscb (after ++ [.executed bscb s q]) = [(s, q)] := by
    rw [executions_snoc hr, hnil]
    simp [execution]
  exact ⟨Or.inr hran, fun _ => hran, fun _ => hran, fun _ h => by simp [hran] at h,
    fun _ s q h => absurd h (hgone s q)⟩

end Fate

omit [LinearOrder ι] in
/-- The ways a log that grew by one observation can contain a scheduling call. -/
private lemma append_singleton_eq_split {log before after : List (Observation ι)}
    {o p : Observation ι} (h : log ++ [o] = before ++ p :: after) :
    (after = [] ∧ log = before ∧ o = p) ∨
      ∃ after', after = after' ++ [o] ∧ log = before ++ p :: after' := by
  rcases List.eq_nil_or_concat after with rfl | ⟨after', o', rfl⟩
  · obtain ⟨hlog, ho⟩ := List.append_inj' h rfl
    exact Or.inl ⟨rfl, hlog, List.singleton_inj.mp ho⟩
  · rw [List.concat_eq_append, ← List.cons_append, ← List.append_assoc] at h
    obtain ⟨hlog, ho⟩ := List.append_inj' h rfl
    obtain rfl := List.singleton_inj.mp ho
    exact Or.inr ⟨after', List.concat_eq_append, hlog⟩

namespace Invariant

variable {h h' : History ι} {e : Event ι}

omit [LinearOrder ι] in
/-- Steps that change neither lists nor completed states. -/
private lemma of_quiet (hi : Invariant h) (hplace : h'.machine.InPlace)
    (hcallbacks : h'.machine.callbacks = h.machine.callbacks)
    (hcomplete : h'.machine.complete = h.machine.complete)
    (hahead : ∀ s q, h.machine.callbacks s q ≠ [] →
      ¬(h'.machine.stateId = s ∧ q.toNat < h'.machine.seq.toNat))
    (hlog : h'.log = h.log ∨ h'.log = h.log ++ [.entered h.machine.stateId]) : Invariant h' := by
  refine ⟨hplace, hcallbacks ▸ hi.nodup, hcallbacks ▸ hi.unique, fun s q hne => ?_, fun s hs => ?_,
    fun before b s q after heq => ?_⟩
  · rw [hcallbacks] at hne
    exact ⟨hcomplete ▸ (hi.ahead s q hne).1, hahead s q hne⟩
  · rw [hcomplete]
    rcases hlog with hlog | hlog <;> rw [hlog] at hs
    · exact hi.complete s hs
    · exact hi.complete s (by simpa using hs)
  · rcases hlog with hlog | hlog <;> rw [hlog] at heq
    · obtain ⟨hbefore, hf⟩ := hi.fate before b s q after heq
      exact ⟨hbefore, hf.congr hcallbacks⟩
    · rcases append_singleton_eq_split heq with ⟨-, -, ho⟩ | ⟨after', rfl, hold⟩
      · cases ho
      · obtain ⟨hbefore, hf⟩ := hi.fate before b s q after' hold
        exact ⟨hbefore, hf.snoc_of_neutral (fun _ _ h => by cases h) rfl (fun h => by cases h)
          fun s q => by rw [hcallbacks]⟩

private lemma of_scheduled (hi : Invariant h) {bscb : Callback} {state : ι}
    {sq : BootStateSequence} (hfresh : ∀ s q, bscb ∉ h.machine.callbacks s q)
    (htime : ¬(h.machine.stateId = state ∧ sq.toNat < h.machine.seq.toNat))
    (hplace : h'.machine.InPlace) (hopen : h.machine.complete state = false)
    (hcallbacks : ∀ s q, h'.machine.callbacks s q =
      if s = state ∧ q = sq then bscb :: h.machine.callbacks state sq else h.machine.callbacks s q)
    (hcomplete : h'.machine.complete = h.machine.complete)
    (hstate : h'.machine.stateId = h.machine.stateId) (hseq : h'.machine.seq = h.machine.seq)
    (hlog : h'.log = h.log ++ [.scheduled bscb state sq]) : Invariant h' := by
  have hmem : ∀ b s q, b ∈ h'.machine.callbacks s q ↔
      (b = bscb ∧ s = state ∧ q = sq) ∨ b ∈ h.machine.callbacks s q := by
    intro b s q
    rw [hcallbacks]
    split_ifs with hsq
    · rw [hsq.1, hsq.2]
      simp
    · simp [hsq]
  refine ⟨hplace, fun s q => ?_, fun b s q s' q' hb hb' => ?_, fun s q hne => ?_, fun s hs => ?_,
    fun before b s q after heq => ?_⟩
  · rw [hcallbacks]
    split_ifs
    · exact List.nodup_cons.mpr ⟨hfresh state sq, hi.nodup state sq⟩
    · exact hi.nodup s q
  · rcases (hmem b s q).mp hb with ⟨rfl, rfl, rfl⟩ | hb
    · rcases (hmem b s' q').mp hb' with ⟨-, rfl, rfl⟩ | hb'
      · exact ⟨rfl, rfl⟩
      · exact absurd hb' (hfresh s' q')
    · rcases (hmem b s' q').mp hb' with ⟨rfl, -, -⟩ | hb'
      · exact absurd hb (hfresh s q)
      · exact hi.unique b s q s' q' hb hb'
  · rw [hcomplete, hstate, hseq]
    rw [hcallbacks] at hne
    split_ifs at hne with hsq
    · rw [hsq.1, hsq.2]
      exact ⟨hopen, htime⟩
    · exact hi.ahead s q hne
  · rw [hcomplete]
    rw [hlog] at hs
    exact hi.complete s (by simpa using hs)
  · rw [hlog] at heq
    rcases append_singleton_eq_split heq with ⟨rfl, rfl, ho⟩ | ⟨after', rfl, hold⟩
    · cases ho
      refine ⟨fun hleft => by simp [hi.complete state hleft] at hopen, ?_⟩
      refine ⟨Or.inl rfl, by simp, by simp [Rescheduled], fun _ _ => ?_, fun _ s q hb => ?_⟩
      · exact (hmem _ _ _).mpr (Or.inl ⟨rfl, rfl, rfl⟩)
      · rcases (hmem bscb s q).mp hb with ⟨-, rfl, rfl⟩ | hb
        · exact ⟨rfl, rfl, rfl⟩
        · exact absurd hb (hfresh s q)
    · obtain ⟨hbefore, hf⟩ := hi.fate before b s q after' hold
      refine ⟨hbefore, ?_⟩
      by_cases hb : b = bscb
      · subst hb
        exact hf.snoc_of_scheduled hfresh state sq
      · refine hf.snoc_of_neutral (fun _ _ h => ?_) rfl (fun h => by cases h) fun s q => ?_
        · cases h
          exact hb rfl
        · simp [hmem, hb]

private lemma of_executed (hi : Invariant h) {bscb : Callback} {rest : List Callback}
    (hplace : h'.machine.InPlace)
    (hfirst : h.machine.callbacks h.machine.stateId h.machine.seq = bscb :: rest)
    (hcallbacks : ∀ s q, h'.machine.callbacks s q =
      if s = h.machine.stateId ∧ q = h.machine.seq then rest else h.machine.callbacks s q)
    (hcomplete : h'.machine.complete = h.machine.complete)
    (hstate : h'.machine.stateId = h.machine.stateId) (hseq : h'.machine.seq = h.machine.seq)
    (hlog : h'.log = h.log ++ [.executed bscb h.machine.stateId h.machine.seq]) :
    Invariant h' := by
  have hnodup := hi.nodup h.machine.stateId h.machine.seq
  rw [hfirst, List.nodup_cons] at hnodup
  have hin : bscb ∈ h.machine.callbacks h.machine.stateId h.machine.seq := by simp [hfirst]
  have hmem : ∀ b s q, b ∈ h'.machine.callbacks s q ↔ b ≠ bscb ∧ b ∈ h.machine.callbacks s q := by
    intro b s q
    rw [hcallbacks]
    split_ifs with hsq
    · rw [hsq.1, hsq.2, hfirst, List.mem_cons]
      constructor
      · exact fun hb => ⟨fun heq => hnodup.1 (heq ▸ hb), Or.inr hb⟩
      · exact fun hb => hb.2.resolve_left hb.1
    · refine ⟨fun hb => ⟨fun heq => hsq ?_, hb⟩, fun hb => hb.2⟩
      exact hi.unique bscb s q _ _ (heq ▸ hb) hin
  refine ⟨hplace, fun s q => ?_, fun b s q s' q' hb hb' => ?_, fun s q hne => ?_, fun s hs => ?_,
    fun before b s q after heq => ?_⟩
  · rw [hcallbacks]
    split_ifs
    · exact hnodup.2
    · exact hi.nodup s q
  · exact hi.unique b s q s' q' ((hmem _ _ _).mp hb).2 ((hmem _ _ _).mp hb').2
  · rw [hcomplete, hstate, hseq]
    obtain ⟨b, hb⟩ := List.exists_mem_of_ne_nil _ hne
    exact hi.ahead s q (List.ne_nil_of_mem ((hmem b s q).mp hb).2)
  · rw [hcomplete]
    rw [hlog] at hs
    exact hi.complete s (by simpa using hs)
  · rw [hlog] at heq
    rcases append_singleton_eq_split heq with ⟨-, -, ho⟩ | ⟨after', rfl, hold⟩
    · cases ho
    · obtain ⟨hbefore, hf⟩ := hi.fate before b s q after' hold
      refine ⟨hbefore, ?_⟩
      by_cases hb : b = bscb
      · subst hb
        exact hf.snoc_of_executed hin fun s q hb => ((hmem b s q).mp hb).1 rfl
      · exact hf.snoc_of_neutral (fun _ _ h => by cases h) (by simp [execution, Ne.symm hb])
          (fun h => by cases h) fun s q => by simp [hmem, hb]

/-- When a state is left both its lists are empty: the exit list has just been drained, and the
entry list was when the entry phase ended. -/
private lemma of_exitDone (hi : Invariant h) (hplace : h'.machine.InPlace)
    (hcurrent : h.machine.seq = .onExit)
    (hdrained : h.machine.callbacks h.machine.stateId .onExit = [])
    (hcallbacks : h'.machine.callbacks = h.machine.callbacks)
    (hcomplete : h'.machine.complete = Function.update h.machine.complete h.machine.stateId true)
    (hseq : h'.machine.seq = .onEntry)
    (hlog : h'.log = h.log ++ [.left h.machine.stateId]) : Invariant h' := by
  have hempty : ∀ q, h.machine.callbacks h.machine.stateId q = [] := by
    intro q
    cases q with
    | onExit => exact hdrained
    | onEntry =>
      by_contra hne
      exact (hi.ahead _ _ hne).2 ⟨rfl, by simp [hcurrent, BootStateSequence.toNat]⟩
  refine ⟨hplace, hcallbacks ▸ hi.nodup, hcallbacks ▸ hi.unique, fun s q hne => ?_, fun s hs => ?_,
    fun before b s q after heq => ?_⟩
  · rw [hcallbacks] at hne
    rw [hcomplete, hseq, Function.update_apply]
    have hs : s ≠ h.machine.stateId := fun hs => hne (hs ▸ hempty q)
    exact ⟨by rw [if_neg hs]; exact (hi.ahead s q hne).1, by simp [BootStateSequence.toNat]⟩
  · rw [hcomplete, Function.update_apply]
    rw [hlog] at hs
    split_ifs with hs'
    · rfl
    · exact hi.complete s (by simpa [hs'] using hs)
  · rw [hlog] at heq
    rcases append_singleton_eq_split heq with ⟨-, -, ho⟩ | ⟨after', rfl, hold⟩
    · cases ho
    · obtain ⟨hbefore, hf⟩ := hi.fate before b s q after' hold
      refine ⟨hbefore, hf.snoc_of_neutral (fun _ _ h => by cases h) rfl (fun hleft => ?_)
        fun s q => by rw [hcallbacks]⟩
      cases hleft
      refine hf.own.resolve_left fun hnil => ?_
      by_cases hr : Rescheduled b after'
      · simp [hf.again hr] at hnil
      · have := hf.waiting hr hnil
        simp [hempty] at this

/-- One step in time keeps the invariant. -/
lemma step (hi : Invariant h) (hfresh : NotPending h e) (htime : InTime h e)
    (hstep : h.step e = some h') : Invariant h' := by
  obtain ⟨heffect, hplace⟩ := History.step_effect hi.inPlace hstep
  cases heffect with
  | quiet hcallbacks hcomplete hstate hseq hlog =>
    exact hi.of_quiet hplace hcallbacks hcomplete
      (fun s q hne => hstate ▸ hseq ▸ (hi.ahead s q hne).2) hlog
  | scheduled bscb state sq hevent hopen hcallbacks hcomplete hstate hseq hlog =>
    subst hevent
    exact hi.of_scheduled (hfresh hopen) (htime hopen) hplace hopen hcallbacks hcomplete hstate
      hseq hlog
  | executed bscb rest hfirst hcallbacks hcomplete hstate hseq hlog =>
    exact hi.of_executed hplace hfirst hcallbacks hcomplete hstate hseq hlog
  | entryDone hcurrent hdrained hcallbacks hcomplete hstate hseq hlog =>
    refine hi.of_quiet hplace hcallbacks hcomplete (fun s q hne => ?_) (Or.inl hlog)
    rw [hstate, hseq]
    rintro ⟨rfl, hlt⟩
    cases q with
    | onEntry => exact hne hdrained
    | onExit => simp at hlt
  | exitDone hcurrent hdrained hcallbacks hcomplete hseq hlog =>
    exact hi.of_exitDone hplace hcurrent hdrained hcallbacks hcomplete hseq hlog

omit [LinearOrder ι] in
lemma init (first : ι) : Invariant (History.init first) := by
  refine ⟨rfl, fun _ _ => List.nodup_nil, fun _ _ _ _ _ h => ?_, fun _ _ h => absurd rfl h,
    fun _ h => ?_, fun before _ _ _ _ h => ?_⟩
  · cases h
  · cases h
  · cases before <;> cases h

omit [LinearOrder ι] in
lemma runsOnce (hi : Invariant h) : RunsOnce h.log := by
  intro before bscb state seq after heq
  obtain ⟨hbefore, hf⟩ := hi.fate before bscb state seq after heq
  refine ⟨hf.own, fun _ hleft => hf.left ?_⟩
  rw [heq] at hleft
  rcases List.mem_append.mp hleft with hleft | hleft
  · exact absurd hleft hbefore
  · exact (List.mem_cons.mp hleft).resolve_left fun h => by cases h

end Invariant

/-! ### Runs -/

/-- In a run that never schedules a callback for a phase that has passed, every callback
accepted for scheduling is called in its own phase only, at most once, and exactly once if its
state is entered and left. -/
theorem runsOnce_of_inTime (first : ι) (events : List (Event ι)) (h : History ι)
    (hrun : exec History.step (.init first) events = some h)
    (hpending : Meets History.step NotPending (.init first) events)
    (htime : Meets History.step InTime (.init first) events) : RunsOnce h.log := by
  have hinv : Invariant h := by
    refine invariant_of_meets (fun h e h' hi hG hstep => ?_) (Invariant.init first)
      (hpending.and htime) hrun
    exact hi.step hG.1 hG.2 hstep
  exact hinv.runsOnce

instance [Fintype ι] (h : History ι) : (e : Event ι) → Decidable (NotPending h e)
  | .sched bscb state _ => inferInstanceAs (Decidable (h.machine.complete state = false →
      ∀ s q, bscb ∉ (h.machine.phases s q).callbacks))
  | .block _ _ | .unblock _ _ | .return_ _ | .walk => .isTrue trivial

instance (h : History ι) : (e : Event ι) → Decidable (InTime h e)
  | .sched _ state seq => inferInstanceAs (Decidable (h.machine.complete state = false →
      ¬(h.machine.stateId = state ∧ seq.toNat < h.machine.seq.toNat)))
  | .block _ _ | .unblock _ _ | .return_ _ | .walk => .isTrue trivial

/-- A callback that is scheduled before the walk for the exit of the first state schedules
another one for the exit of the state it runs in. -/
private def nested : List (Event BootStateId) :=
  [.sched 1 .preDevice .onExit, .walk, .walk, .return_ .preDevice, .walk, .return_ .devInitChips,
    .walk, .sched 2 .preDevice .onExit, .return_ .preDevice, .walk, .return_ .preDevice, .walk]

theorem runsOnce_of_inTime_nested : ∃ h : History BootStateId,
    exec History.step (.init .preDevice) nested = some h ∧
      Meets History.step NotPending (.init .preDevice) nested ∧
      Meets History.step InTime (.init .preDevice) nested ∧ RunsOnce h.log := by
  have hpending : Meets History.step NotPending (.init .preDevice) nested := by decide
  have htime : Meets History.step InTime (.init .preDevice) nested := by decide
  have hsome : (exec History.step (.init .preDevice) nested).isSome := by decide
  obtain ⟨h, hrun⟩ := Option.isSome_iff_exists.mp hsome
  exact ⟨h, hrun, hpending, htime, runsOnce_of_inTime _ _ h hrun hpending htime⟩

/-- `run_state` of the first state schedules a callback for the entry of that state. -/
private def lateEntry : List (Event BootStateId) :=
  [.walk, .walk, .return_ .preDevice, .walk, .sched 1 .preDevice .onEntry,
    .return_ .devInitChips, .walk]

/-- The callback is accepted, its state is left, and it has not been called. -/
theorem not_runsOnce_of_late_entry :
    ¬ ∀ (events : List (Event BootStateId)) (h : History BootStateId),
      exec History.step (.init .preDevice) events = some h →
        Meets History.step NotPending (.init .preDevice) events → RunsOnce h.log := by
  intro hall
  have hlog : (exec History.step (.init .preDevice) lateEntry).map History.log =
      some [.entered .preDevice, .scheduled 1 .preDevice .onEntry, .left .preDevice] := by decide
  obtain ⟨h, hrun, hlog⟩ := Option.map_eq_some_iff.mp hlog
  have honce := hall lateEntry h hrun (by decide)
  rw [hlog] at honce
  have hran := (honce [.entered .preDevice] 1 .preDevice .onEntry [.left .preDevice] rfl).2
    (by simp) (by simp)
  simp [executions] at hran

end ApuBios.BootState
