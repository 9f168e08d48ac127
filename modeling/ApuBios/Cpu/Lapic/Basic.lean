import ApuBios.Library.Transition
import ApuBios.Library.Word

/-!
# Starting the other processors

Model of `start_other_cpus` and `start_cpu` in `src/cpu/x86/lapic/lapic_cpu_init.c` with the code
that a started processor runs, `__ap_protected_start` in `secondary.S` and `secondary_cpu_init`.
Each read or write of a shared variable is a step, and the steps of the processors come in any
order. What the local APIC answers, and when a processor gets to run, is left open.
-/

namespace ApuBios.Lapic

/-- The configuration, and where the stacks are. -/
structure Config where
  serialCpuInit : Bool
  maxCpus : ℕ
  stackSize : ℕ
  /-- `sizeof(struct cpu_info)` -/
  cpuInfoSize : ℕ
  estack : ℕ
  cpuInfoSize_lt : cpuInfoSize < stackSize
  stacks_le : maxCpus * stackSize ≤ estack
  fits : estack < 2 ^ 32

/-- A device on the CPU bus, as far as `start_other_cpus` looks at it. -/
structure Cpu where
  isApic : Bool
  apicId : ℕ
  enabled : Bool
  initialized : Bool
  deriving DecidableEq, Repr

/-- The devices on the CPU bus; the boot processor is one of them. -/
structure CpuBus (cfg : Config) where
  children : List Cpu
  bspCpu : Cpu
  nodup : ((children.filter Cpu.isApic).map Cpu.apicId).Nodup
  bspCpu_mem : bspCpu ∈ children
  bspCpu_enabled : bspCpu.enabled = true
  /-- `cpu_initialize(0)` comes first. -/
  bspCpu_initialized : cfg.serialCpuInit = true → bspCpu.initialized = true

/-- What is on its way in the start-up code of an application processor. -/
inductive Ap where
  | off
  | started
  | hasStack (esp : ℕ)
  | hasIndex (esp edi : ℕ)
  /-- In `secondary_cpu_init`. -/
  | running (esp edi : ℕ)
  | initializing (esp edi : ℕ)
  | stopped (esp edi : ℕ)
  deriving DecidableEq, Repr

/-- Where the boot processor is. -/
inductive Phase where
  /-- In the loop of `start_other_cpus`. -/
  | loop
  | locked (apicid : ℕ)
  | indexed (apicid index : ℕ)
  | stackSet (apicid index : ℕ)
  /-- In `lapic_start_cpu`, before the first STARTUP IPI and behind it. -/
  | starting (apicid : ℕ)
  | ipiSent (apicid : ℕ)
  | waiting (apicid count : ℕ)
  | ending (apicid : ℕ)
  | unlocking
  deriving DecidableEq, Repr

structure State where
  secondaryStack : ℕ
  secondaryCpuIndex : ℕ
  lastCpuIndex : ℕ
  startCpuLock : Bool
  /-- What the loop has not come to. -/
  cpus : List ℕ
  phase : Phase
  aps : ℕ → Ap

inductive Event where
  /-- A step of the boot processor. -/
  | bsp
  | startupIpi
  /-- `lapic_start_cpu` returns. -/
  | lapicResult (result : Bool)
  /-- A step of an application processor. -/
  | ap (apicid : ℕ)
  deriving DecidableEq, Repr

section

variable (cfg : Config)

/-- The processors that `start_other_cpus` starts. Nothing changes the flags of a processor before
the loop comes to it. -/
def startOtherCpus (bus : CpuBus cfg) : List ℕ :=
  (bus.children.filter fun cpu =>
    cpu.isApic && (cfg.serialCpuInit || cpu ≠ bus.bspCpu) && cpu.enabled && !cpu.initialized).map
    Cpu.apicId

/-- `stack_end` -/
def stackEnd (index : ℕ) : ℕ :=
  Word.sub 32 (Word.sub 32 cfg.estack (cfg.stackSize * index)) cfg.cpuInfoSize

/-- The bound of `count` in `start_cpu`. -/
def maxCount : ℕ := 100000

/-- A step of `start_other_cpus`. -/
def bspStep (s : State) : Option State :=
  match s.phase with
  | .loop =>
    match s.cpus with
    | [] => none
    | apicid :: cpus =>
      if s.startCpuLock = true then none
      else some { s with startCpuLock := true, cpus, phase := .locked apicid }
  | .locked apicid =>
    let index := s.lastCpuIndex + 1
    some { s with lastCpuIndex := index, phase := .indexed apicid index }
  | .indexed apicid index =>
    some { s with secondaryStack := stackEnd cfg index, phase := .stackSet apicid index }
  | .stackSet apicid index =>
    some { s with secondaryCpuIndex := index, phase := .starting apicid }
  | .starting _ => none
  | .ipiSent _ => none
  | .waiting apicid count =>
    if s.secondaryStack = 0 ∨ count + 1 = maxCount then some { s with phase := .ending apicid }
    else some { s with phase := .waiting apicid (count + 1) }
  | .ending _ => some { s with secondaryStack := 0, phase := .unlocking }
  | .unlocking => some { s with startCpuLock := false, phase := .loop }

/-- A step of the start-up code. -/
def apStep (s : State) (apicid : ℕ) : Option State :=
  match s.aps apicid with
  | .off => none
  | .started => some { s with aps := Function.update s.aps apicid (.hasStack s.secondaryStack) }
  | .hasStack esp =>
    some { s with aps := Function.update s.aps apicid (.hasIndex esp s.secondaryCpuIndex) }
  | .hasIndex esp edi =>
    some { s with
      secondaryStack := 0
      aps := Function.update s.aps apicid (.running esp edi) }
  | .running esp edi =>
    if cfg.serialCpuInit = true then
      if s.startCpuLock = true then none
      else some { s with
        startCpuLock := true
        aps := Function.update s.aps apicid (.initializing esp edi) }
    else some { s with aps := Function.update s.aps apicid (.initializing esp edi) }
  | .initializing esp edi =>
    some { s with
      startCpuLock := if cfg.serialCpuInit = true then false else s.startCpuLock
      aps := Function.update s.aps apicid (.stopped esp edi) }
  | .stopped _ _ => none

def step (s : State) : Event → Option State
  | .bsp => bspStep cfg s
  | .startupIpi =>
    match s.phase with
    | .starting apicid =>
      some { s with
        phase := .ipiSent apicid
        aps := Function.update s.aps apicid .started }
    | _ => none
  | .lapicResult result =>
    match s.phase, result with
    | .starting apicid, false => some { s with phase := .ending apicid }
    | .ipiSent apicid, false => some { s with phase := .ending apicid }
    | .ipiSent apicid, true => some { s with phase := .waiting apicid 0 }
    | _, _ => none
  | .ap apicid => apStep cfg s apicid

def initial (bus : CpuBus cfg) : State where
  secondaryStack := 0
  secondaryCpuIndex := 0
  lastCpuIndex := 0
  startCpuLock := false
  cpus := startOtherCpus cfg bus
  phase := .loop
  aps := fun _ => .off

end

/-! ### What is asked of the processors -/

/-- The stack that a processor took. -/
def Ap.stack : Ap → Option ℕ
  | .off => none
  | .started => none
  | .hasStack esp => some esp
  | .hasIndex esp _ => some esp
  | .running esp _ => some esp
  | .initializing esp _ => some esp
  | .stopped esp _ => some esp

/-- The index that a processor took. -/
def Ap.index : Ap → Option ℕ
  | .off => none
  | .started => none
  | .hasStack _ => none
  | .hasIndex _ edi => some edi
  | .running _ edi => some edi
  | .initializing _ edi => some edi
  | .stopped _ edi => some edi

/-- The processors have stacks of their own, and indices below the limit. -/
structure Safe (cfg : Config) (s : State) : Prop where
  disjoint : ∀ i j esp, (s.aps i).stack = some esp → (s.aps j).stack = some esp → i = j
  /-- The boot processor has the first stack. -/
  not_first : ∀ i esp, (s.aps i).stack = some esp → esp ≠ stackEnd cfg 0
  not_zero : ∀ i esp, (s.aps i).stack = some esp → esp ≠ 0
  index_lt : ∀ i edi, (s.aps i).index = some edi → edi < cfg.maxCpus
  lastCpuIndex_lt : s.lastCpuIndex < cfg.maxCpus

/-! ### Processors that are in time -/

/-- The processor that a stack is advertised for. -/
def Phase.advertised : Phase → Option ℕ
  | .stackSet apicid _ => some apicid
  | .starting apicid => some apicid
  | .ipiSent apicid => some apicid
  | .waiting apicid _ => some apicid
  | .ending apicid => some apicid
  | _ => none

/-- There is an advertised stack that the processor has not taken. -/
def State.Pending (s : State) : Prop :=
  ∃ apicid ∈ s.phase.advertised, (s.aps apicid).stack = none

instance (s : State) : Decidable s.Pending :=
  match h : s.phase.advertised with
  | none => .isFalse (by simp [State.Pending, h])
  | some apicid =>
    decidable_of_iff ((s.aps apicid).stack = none) (by simp [State.Pending, h])

/-- A processor reads `secondary_stack` before the boot processor ends its wait for it, and does
not clear it when another processor has yet to read it. -/
def InTime (s : State) : Event → Prop
  | .ap apicid =>
    match s.aps apicid with
    | .started => s.phase.advertised = some apicid
    | .hasIndex _ _ => ¬s.Pending
    | _ => True
  | _ => True

instance (s : State) (e : Event) : Decidable (InTime s e) := by
  unfold InTime
  split
  · split <;> infer_instance
  · infer_instance

end ApuBios.Lapic
