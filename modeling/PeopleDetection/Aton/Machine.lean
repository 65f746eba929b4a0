import PeopleDetection.Aton.Blocks
import PeopleDetection.Library.Simulation

/-!
# The asynchronous runtime

In the build of the application the runtime does not wait in place. A thread starts a
block and sleeps on a semaphore. The interrupt handler records the units that have
finished and gives the semaphore, and the thread looks at the record whenever it wakes.

The thread takes one step for each of its accesses to what the handler shares, and an
interrupt may arrive between any two of them.
-/

namespace PeopleDetection.Aton

/-- Where the thread is in `Run_Inference` and the functions it calls. `ended` is the local
variable `this_run_executed_end_epoch`; `p` is the argument of
`__LL_ATON_RT_ExecEndEpochBlock`. -/
inductive Pc (ι : Type) where
  | head
  | last (ended : Bool)
  | arm
  | launch
  | launched
  | clear
  | finish (ended : Bool)
  | disarm (p : EpochPtr ι) (ended : Bool)
  | release (p : EpochPtr ι) (ended : Bool)
  | advance (ended : Bool)
  | wfe
  | done
  | failed

/-- The runtime, what the thread and the handler share, and the units of the hardware that
are at work. -/
structure Machine (ι σ : Type) where
  rt : State ι σ
  triggered_events : BitVec 32
  current_epoch_block_started : Bool
  wfe_sem : Nat
  running : BitVec 32
  pc : Pc ι

abbrev UINT_MAX : Nat := 2 ^ 32 - 1

namespace Machine

variable {ι σ : Type} (net : Program ι σ) (m : Machine ι σ)

/-- The pointer `nn_instance->exec_state.current_epoch_block`. -/
def current : EpochPtr ι := m.rt.exec_state.current_epoch_block

/-- What a part of the runtime leaves, or a failed assertion. -/
def go (o : Option (State ι σ)) (pc : Pc ι) : Machine ι σ :=
  match o with
  | some s => { m with rt := s, pc := pc }
  | none => { m with pc := .failed }

/-! ## The thread -/

section Thread

variable (eb : EpochBlock_ItemTypeDef ι σ)

/-- `wait for current epoch block to finish`. -/
def atHead : Machine ι σ :=
  let _wait_mask := m.rt.GetWaitMask eb m.current
  if m.current_epoch_block_started = true ∧ _wait_mask ≠ 0 then
    if m.triggered_events &&& _wait_mask = _wait_mask then { m with pc := .clear }
    else { m with pc := .wfe }
  else { m with pc := .last false }

/-- The critical section. -/
def atClear : Machine ι σ :=
  if m.rt.aton_ip_owner then
    { m with
      triggered_events := m.triggered_events &&& ~~~(m.rt.GetWaitMask eb m.current)
      pc := .finish true }
  else { m with pc := .failed }

/-- `test for last epoch block`, and up to taking the ownership of the hardware. -/
def atLast (ended : Bool) : Machine ι σ :=
  if EpochBlock_IsLastEpochBlock eb then
    if m.rt.exec_state.saved_current_epoch_block.isSome then m.go (m.rt.returnFromLib net) .head
    else { m with pc := .done }
  else if ended then { m with pc := .head }
  else if m.current_epoch_block_started then { m with pc := .launched }
  else if EpochBlock_IsEpochStart eb = true ∧ m.triggered_events ≠ 0 then { m with pc := .failed }
  else { m with current_epoch_block_started := true }.go (m.rt.openBlock eb m.current) .arm

/-- The start routine. The units that the block waits for go to work. -/
def atLaunch [DecidableEq ι] : Machine ι σ :=
  match m.rt.launchBlock eb m.current with
  | some s => { m with rt := s, running := s.GetWaitMask eb m.current, pc := .launched }
  | none => { m with pc := .failed }

def atLaunched : Machine ι σ :=
  if m.rt.GetWaitMask eb m.current = 0 then { m with pc := .finish false }
  else { m with pc := .wfe }

/-- `__LL_ATON_RT_DetermineNextEpochBlock`. -/
def atAdvance (ended : Bool) : Machine ι σ :=
  if m.triggered_events = 0 then
    { m with current_epoch_block_started := false }.go m.rt.DetermineNextEpochBlock
      (if ended then .last true else .head)
  else { m with pc := .failed }

/-- A step at a block. -/
def threadAt [DecidableEq ι] : Machine ι σ :=
  match m.pc with
  | .head => m.atHead eb
  | .last ended => m.atLast net eb ended
  | .arm => m.go (m.rt.armBlock eb m.current) .launch
  | .launch => m.atLaunch eb
  | .launched => m.atLaunched eb
  | .clear => m.atClear eb
  | .finish ended => m.go (m.rt.finishBlock net eb m.current) (.disarm m.current ended)
  | .disarm p ended => m.go (m.rt.disarmBlock eb) (.release p ended)
  | .release p ended => m.go (m.rt.releaseBlock eb p) (.advance ended)
  | _ => m

/-- The block that a step is about. -/
def subject : EpochPtr ι :=
  match m.pc with
  | .disarm p _ => p
  | .release p _ => p
  | _ => m.current

/-- A step of the thread. There is none while it sleeps in `LL_ATON_OSAL_WFE`, nor after
the inference or a failed assertion. -/
def thread [DecidableEq ι] : Option (Machine ι σ) :=
  match m.pc with
  | .done => none
  | .failed => none
  | .wfe =>
      if m.wfe_sem = 0 then none else some { m with wfe_sem := m.wfe_sem - 1, pc := .head }
  | .advance ended => some (m.atAdvance ended)
  | _ =>
      match net.block m.subject with
      | some eb => some (m.threadAt net eb)
      | none => some { m with pc := .failed }

end Thread

/-! ## The handler -/

/-- `__LL_ATON_RT_IrqEpochBlock`: the events that are added. -/
def IrqEpochBlock (irqs wait_mask triggered_events : BitVec 32) : BitVec 32 :=
  let wait_irqs := irqs &&& wait_mask
  if wait_irqs ≠ 0 then
    (List.range ATON_STRENG_NUM).foldl
      (fun t i => if (wait_irqs >>> i) &&& 1#32 ≠ 0 then t ||| (1#32 <<< i) else t) triggered_events
  else triggered_events

/-- `__LL_ATON_RT_IrqEpochBlob`. -/
def IrqEpochBlob (irqs ecId triggered_events : BitVec 32) : BitVec 32 :=
  if irqs &&& ATON_EPOCHCTRL_INT_MASK ecId ≠ 0 then triggered_events ||| (1#32 <<< ecId.toNat)
  else triggered_events

/-- The interrupts that the handler does not take for errors, at a block. -/
def expected (eb : EpochBlock_ItemTypeDef ι σ) : BitVec 32 :=
  if EpochBlock_IsEpochBlob eb then ATON_EPOCHCTRL_INT_MASK (EpochBlock_EpochControllerUnit eb)
  else ATON_STRENG_INT_MASK

/-- `ATON_STD_IRQHandler`, called with `irqs` in the interrupt register. -/
def ATON_STD_IRQHandler (irqs : BitVec 32) : Machine ι σ :=
  if m.rt.aton_ip_owner then
    match net.block m.current with
    | none => { m with pc := .failed }
    | some eb =>
        if irqs &&& ~~~(expected eb) = 0 then
          if !EpochBlock_IsEpochBlob eb then
            { m with
              triggered_events := IrqEpochBlock irqs (m.rt.waitMask eb m.current) m.triggered_events
              wfe_sem := min (m.wfe_sem + 1) UINT_MAX }
          else if (EpochBlock_EpochControllerUnit eb).toNat < ATON_EPOCHCTRL_NUM then
            { m with
              triggered_events :=
                IrqEpochBlob irqs (EpochBlock_EpochControllerUnit eb) m.triggered_events
              wfe_sem := min (m.wfe_sem + 1) UINT_MAX }
          else { m with pc := .failed }
        else { m with pc := .failed }
  else { m with pc := .failed }

/-! ## The hardware -/

/-- The units that a block waits for and that an interrupt reports. -/
def reported (eb : EpochBlock_ItemTypeDef ι σ) (irqs : BitVec 32) : BitVec 32 :=
  if EpochBlock_IsEpochBlob eb then
    if irqs &&& ATON_EPOCHCTRL_INT_MASK (EpochBlock_EpochControllerUnit eb) ≠ 0 then
      1#32 <<< (EpochBlock_EpochControllerUnit eb).toNat
    else 0
  else irqs &&& m.rt.waitMask eb m.current &&& ATON_STRENG_INT_MASK

/-- An interrupt that the hardware may raise. It belongs to somebody, it reports no error,
and a unit that the block waits for reports the end of its work once. Other streaming
engines may report as well. It does not come while a loop of end routines has moved the
current block in front of its array. -/
def Raised (irqs : BitVec 32) : Prop :=
  m.rt.aton_ip_owner = true ∧ ∃ eb, net.block m.current = some eb ∧
    irqs &&& ~~~(expected eb) = 0 ∧ m.reported eb irqs &&& ~~~m.running = 0

/-- The units that an interrupt reports stop. The last one leaves the results of the block
in memory. -/
def settle (irqs : BitVec 32) : Machine ι σ :=
  match net.block m.current with
  | none => m
  | some eb =>
      let rest := m.running &&& ~~~(m.reported eb irqs)
      { m with
        running := rest
        rt := if m.running ≠ 0 ∧ rest = 0 then
            { m.rt with data := net.compute m.current m.rt.data } else m.rt }

/-- An interrupt. -/
def interrupt (irqs : BitVec 32) : Machine ι σ := (m.settle net irqs).ATON_STD_IRQHandler net irqs

inductive Label where
  | thread
  | irq (irqs : BitVec 32)

/-- The steps of the thread among interrupts. -/
inductive Step [DecidableEq ι] : Machine ι σ → Label → Machine ι σ → Prop where
  | thread {m m' : Machine ι σ} (turn : m.thread net = some m') : Step m .thread m'
  | irq {m : Machine ι σ} {irqs : BitVec 32} (raised : m.Raised net irqs) :
      Step m (.irq irqs) (m.interrupt net irqs)

instance (irqs : BitVec 32) : Decidable (m.Raised net irqs) :=
  decidable_of_iff (m.rt.aton_ip_owner = true ∧ (net.block m.current).any (fun eb =>
      irqs &&& ~~~(expected eb) = 0 ∧ m.reported eb irqs &&& ~~~m.running = 0) = true) (by
    simp [Raised, Option.any_eq_true])

/-- The runs of the thread among interrupts. -/
abbrev Runs [DecidableEq ι] : Machine ι σ → List Label → Machine ι σ → Prop :=
  Library.LabelledRun (Step net)

/-- The run with given labels. -/
def exec [DecidableEq ι] (net : Program ι σ) : List Label → Machine ι σ → Option (Machine ι σ)
  | [], m => some m
  | .thread :: ls, m => (m.thread net).bind (exec net ls)
  | .irq irqs :: ls, m => if m.Raised net irqs then exec net ls (m.interrupt net irqs) else none

theorem exec_runs [DecidableEq ι] {net : Program ι σ} {ls : List Label} {m m' : Machine ι σ}
    (h : exec net ls m = some m') : Runs net m ls m' := by
  induction ls generalizing m with
  | nil =>
      cases h
      exact .done _
  | cons l ls ih =>
      cases l with
      | thread =>
          obtain ⟨n, turn, rest⟩ := Option.bind_eq_some_iff.mp h
          exact .step (.thread turn) (ih rest)
      | irq irqs =>
          obtain ⟨raised, rest⟩ := Option.ite_none_right_eq_some.mp h
          exact .step (.irq raised) (ih rest)

/-- Before an inference. The semaphore may have been given before. -/
def start (s : State ι σ) (wfe_sem : Nat) : Machine ι σ := ⟨s, 0, false, wfe_sem, 0, .head⟩

end Machine
end PeopleDetection.Aton
