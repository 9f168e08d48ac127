import ApuBios.Library.Transition

/-!
# The boot state machine

Model of the state machine in `src/lib/hardwaremain.c`. The walk over the boot states calls
code it knows nothing about (callbacks, `run_state` functions, timers), and that code may call
back into the module at any point. Which code runs and what it does is left open: an event of
the model is a call made by such code, or the walk going on to its next such point.
-/

namespace ApuBios.BootState

/-- `boot_state_sequence_t`. -/
inductive BootStateSequence where
  | onEntry
  | onExit
  deriving DecidableEq, Repr

/-- The value of the enumeration constant. -/
def BootStateSequence.toNat : BootStateSequence → ℕ
  | .onEntry => 0
  | .onExit => 1

/-- `boot_state_t`. -/
inductive BootStateId where
  | preDevice
  | devInitChips
  | devEnumerate
  | devResources
  | devEnable
  | devInit
  | postDevice
  | osResumeCheck
  | osResume
  | writeTables
  | payloadLoad
  | payloadBoot
  deriving DecidableEq, Repr

/-- The value of the enumeration constant. -/
def BootStateId.toNat : BootStateId → ℕ
  | .preDevice => 0
  | .devInitChips => 1
  | .devEnumerate => 2
  | .devResources => 3
  | .devEnable => 4
  | .devInit => 5
  | .postDevice => 6
  | .osResumeCheck => 7
  | .osResume => 8
  | .writeTables => 9
  | .payloadLoad => 10
  | .payloadBoot => 11

instance : LinearOrder BootStateId :=
  LinearOrder.lift' BootStateId.toNat fun a b h => by cases a <;> cases b <;> first | rfl | cases h

instance : Fintype BootStateSequence := ⟨{.onEntry, .onExit}, fun x => by cases x <;> decide⟩

instance : Fintype BootStateId :=
  ⟨{.preDevice, .devInitChips, .devEnumerate, .devResources, .devEnable, .devInit, .postDevice,
    .osResumeCheck, .osResume, .writeTables, .payloadLoad, .payloadBoot},
    fun x => by cases x <;> decide⟩

/-- A `struct boot_state_callback`, by its address. -/
abbrev Callback := ℕ

/-- `struct boot_phase`. -/
structure BootPhase where
  callbacks : List Callback
  blockers : ℕ
  deriving DecidableEq, Repr

/-- Where the walk stands. In the drain of a phase, `next` is the id that `run_state` returned,
and `none` before it has run. -/
inductive Control (ι : Type*) where
  /-- before `bs_walk_state_machine` -/
  | startup
  /-- at the head of the loop over the states -/
  | top
  /-- in `bs_run_timers` before the entry callbacks -/
  | entryTimers
  /-- at the head of the loop in `bs_call_callbacks` -/
  | drain (next : Option ι)
  /-- in a callback -/
  | callback (next : Option ι)
  /-- in `bs_run_timers` of a phase that is blocked -/
  | waitTimers (next : Option ι)
  /-- in the `run_state` function -/
  | runState
  /-- after the walk -/
  | halted
  deriving DecidableEq, Repr

/-- Code that the walk has called, and that may call back. -/
def Control.IsForeign {ι : Type*} : Control ι → Bool
  | .startup | .entryTimers | .callback _ | .waitTimers _ | .runState => true
  | .top | .drain _ | .halted => false

/-- `boot_states`, `current_phase` and the position of the walk, for states named by `ι`. -/
structure Machine (ι : Type*) where
  phases : ι → BootStateSequence → BootPhase
  complete : ι → Bool
  stateId : ι
  seq : BootStateSequence
  control : Control ι

variable {ι : Type*} [LinearOrder ι]

/-- The machine before any callback is scheduled; `first` is the state the walk begins with. -/
def Machine.init (first : ι) : Machine ι where
  phases _ _ := ⟨[], 0⟩
  complete _ := false
  stateId := first
  seq := .onEntry
  control := .startup

def Machine.setPhase (m : Machine ι) (state : ι) (seq : BootStateSequence) (p : BootPhase) :
    Machine ι :=
  { m with phases := Function.update m.phases state (Function.update (m.phases state) seq p) }

/-! ### Calls -/

/-- The machine afterwards and the value returned. -/
def bootStateSchedCallback (m : Machine ι) (state : ι) (bscb : Callback)
    (seq : BootStateSequence) : Machine ι × ℤ :=
  if m.complete state then
    (m, -1)
  else
    let phase := m.phases state seq
    (m.setPhase state seq { phase with callbacks := bscb :: phase.callbacks }, 0)

def bootStateSchedOnEntry (m : Machine ι) (bscb : Callback) (stateId : ι) : Machine ι × ℤ :=
  bootStateSchedCallback m stateId bscb .onEntry

def bootStateSchedOnExit (m : Machine ι) (bscb : Callback) (stateId : ι) : Machine ι × ℤ :=
  bootStateSchedCallback m stateId bscb .onExit

/-- The test at the head of `boot_state_block` and `boot_state_unblock`. -/
def Machine.IsPast (m : Machine ι) (state : ι) (seq : BootStateSequence) : Bool :=
  state < m.stateId ∨ (m.stateId = state ∧ seq.toNat < m.seq.toNat)

def bootStateBlock (m : Machine ι) (state : ι) (seq : BootStateSequence) : Machine ι × ℤ :=
  if m.IsPast state seq then
    (m, -1)
  else
    let bp := m.phases state seq
    (m.setPhase state seq { bp with blockers := bp.blockers + 1 }, 0)

def bootStateUnblock (m : Machine ι) (state : ι) (seq : BootStateSequence) : Machine ι × ℤ :=
  if m.IsPast state seq then
    (m, -1)
  else
    let bp := m.phases state seq
    if bp.blockers = 0 then
      (m, -1)
    else
      (m.setPhase state seq { bp with blockers := bp.blockers - 1 }, 0)

/-! ### Steps -/

inductive Event (ι : Type*) where
  /-- foreign code schedules a callback -/
  | sched (bscb : Callback) (state : ι) (seq : BootStateSequence)
  /-- foreign code blocks a phase -/
  | block (state : ι) (seq : BootStateSequence)
  /-- foreign code unblocks a phase -/
  | unblock (state : ι) (seq : BootStateSequence)
  /-- the code called last returns; `run_state` returns the next state -/
  | return_ (next : ι)
  /-- the walk goes on to the next point where it calls foreign code -/
  | walk
  deriving DecidableEq, Repr

/-- One pass through the loop of `bs_call_callbacks`, or what follows that loop. -/
def Machine.drainStep (m : Machine ι) (next : Option ι) : Machine ι :=
  let phase := m.phases m.stateId m.seq
  match phase.callbacks with
  | _ :: rest =>
    -- remove the first callback and call it
    { m.setPhase m.stateId m.seq { phase with callbacks := rest } with control := .callback next }
  | [] =>
    if phase.blockers ≠ 0 then
      { m with control := .waitTimers next }
    else
      match next with
      | none => { m with seq := .onExit, control := .runState }
      | some nextId =>
        { m with
          stateId := nextId
          seq := .onEntry
          complete := Function.update m.complete m.stateId true
          control := .top }

/-- `bs_walk_state_machine` between two calls of foreign code. -/
def Machine.walkStep (m : Machine ι) : Option (Machine ι) :=
  match m.control with
  | .startup => some { m with control := .top }
  | .top =>
    if m.complete m.stateId then some { m with control := .halted }
    else some { m with control := .entryTimers }
  | .drain next => some (m.drainStep next)
  | .entryTimers | .callback _ | .waitTimers _ | .runState | .halted => none

def Machine.returnStep (m : Machine ι) (next : ι) : Option (Machine ι) :=
  match m.control with
  | .entryTimers => some { m with control := .drain none }
  | .callback n => some { m with control := .drain n }
  | .waitTimers n => some { m with control := .drain n }
  | .runState => some { m with control := .drain (some next) }
  | .startup | .top | .drain _ | .halted => none

def step (m : Machine ι) : Event ι → Option (Machine ι)
  | .sched bscb state seq =>
    if m.control.IsForeign then some (bootStateSchedCallback m state bscb seq).1 else none
  | .block state seq =>
    if m.control.IsForeign then some (bootStateBlock m state seq).1 else none
  | .unblock state seq =>
    if m.control.IsForeign then some (bootStateUnblock m state seq).1 else none
  | .return_ next => m.returnStep next
  | .walk => m.walkStep

/-! ### What can be observed of a run -/

inductive Observation (ι : Type*) where
  /-- scheduling returned 0 -/
  | scheduled (bscb : Callback) (state : ι) (seq : BootStateSequence)
  /-- a callback is called while the phase of `state` and `seq` is drained -/
  | executed (bscb : Callback) (state : ι) (seq : BootStateSequence)
  | entered (state : ι)
  | left (state : ι)
  deriving DecidableEq, Repr

/-- What is observed when the event is taken. -/
def observe (m : Machine ι) : Event ι → List (Observation ι)
  | .sched bscb state seq =>
    if (bootStateSchedCallback m state bscb seq).2 = 0 then [.scheduled bscb state seq] else []
  | .walk =>
    match m.control with
    | .top => if m.complete m.stateId then [] else [.entered m.stateId]
    | .drain next =>
      match (m.phases m.stateId m.seq).callbacks, next with
      | bscb :: _, _ => [.executed bscb m.stateId m.seq]
      | [], some _ => if (m.phases m.stateId m.seq).blockers ≠ 0 then [] else [.left m.stateId]
      | [], none => []
    | _ => []
  | .block _ _ | .unblock _ _ | .return_ _ => []

/-- A machine together with everything observed so far, oldest first. -/
structure History (ι : Type*) where
  machine : Machine ι
  log : List (Observation ι)

def History.init (first : ι) : History ι := ⟨.init first, []⟩

def History.step (h : History ι) (e : Event ι) : Option (History ι) :=
  (BootState.step h.machine e).map fun m => ⟨m, h.log ++ observe h.machine e⟩

/-- A callback structure is not scheduled while it is still linked into a phase. -/
def NotPending (h : History ι) : Event ι → Prop
  | .sched bscb state _ =>
    h.machine.complete state = false →
      ∀ s q, bscb ∉ (h.machine.phases s q).callbacks
  | _ => True

/-- The phases in which `bscb` is executed before it is scheduled again. -/
def executions (bscb : Callback) : List (Observation ι) → List (ι × BootStateSequence)
  | [] => []
  | .scheduled c _ _ :: log => if c = bscb then [] else executions bscb log
  | .executed c s q :: log =>
    if c = bscb then (s, q) :: executions bscb log else executions bscb log
  | .entered _ :: log => executions bscb log
  | .left _ :: log => executions bscb log

/-- Every callback that was scheduled with success is executed in no other phase than its own,
at most once, and exactly once if its state has been entered and left. -/
def RunsOnce (log : List (Observation ι)) : Prop :=
  ∀ before bscb state seq after, log = before ++ .scheduled bscb state seq :: after →
    (executions bscb after = [] ∨ executions bscb after = [(state, seq)]) ∧
    (.entered state ∈ log → .left state ∈ log → executions bscb after = [(state, seq)])

end ApuBios.BootState
