import PeopleDetection.Aton.Inference

/-!
# The first call of an inference

`LL_ATON_RT_RunEpochBlock` looks at the flag `inference_started` whenever it is called. The
first call of an inference finds it cleared: it lets the network prepare its blobs, and sets
the flag. `LL_ATON_RT_Reset_Network` clears it again.

So each inference prepares the blobs once, before its first block and before any interrupt.
-/

namespace PeopleDetection.Aton

open Library

/-- The machine with the flag. -/
structure Started (ι σ : Type) where
  inference_started : Bool
  machine : Machine ι σ

namespace Started

variable {ι σ : Type} [DecidableEq ι] (net : Program ι σ) (ec_inference_init : σ → Option σ)

/-- A step of the thread. `ec_inference_init` fails where the runtime asserts that it does
not. -/
def thread (s : Started ι σ) : Option (Started ι σ) :=
  match s.machine.pc, s.inference_started with
  | .head, false =>
      match ec_inference_init s.machine.rt.data with
      | some d => some ⟨true, { s.machine with rt := { s.machine.rt with data := d } }⟩
      | none => some ⟨false, { s.machine with pc := .failed }⟩
  | _, _ => (s.machine.thread net).map fun m => { s with machine := m }

/-- The steps of the thread among interrupts. -/
inductive Step : Started ι σ → Machine.Label → Started ι σ → Prop where
  | thread {s s' : Started ι σ} (turn : s.thread net ec_inference_init = some s') :
      Step s .thread s'
  | irq {s : Started ι σ} {irqs : BitVec 32} (raised : s.machine.Raised net irqs) :
      Step s (.irq irqs) { s with machine := s.machine.interrupt net irqs }

abbrev Runs : Started ι σ → List Machine.Label → Started ι σ → Prop :=
  Library.LabelledRun (Step net ec_inference_init)

/-- Before an inference. -/
def start (s : State ι σ) (wfe_sem : ℕ) : Started ι σ := ⟨false, Machine.start s wfe_sem⟩

variable {net ec_inference_init} {s : State ι σ} {t : Started ι σ} {sem : ℕ}
variable {ls : List Machine.Label}

/-- An inference under way goes on as the machine does. -/
theorem runs_machine {m : Machine ι σ} (run : Runs net ec_inference_init ⟨true, m⟩ ls t) :
    t.inference_started = true ∧ Machine.Runs net m ls t.machine := by
  generalize origin : (⟨true, m⟩ : Started ι σ) = s at run
  induction run generalizing m with
  | done s =>
      cases origin
      exact ⟨rfl, .done m⟩
  | step turn rest ih =>
      cases origin
      cases turn with
      | thread turn =>
          have moved : thread net ec_inference_init ⟨true, m⟩ =
              (m.thread net).map fun m => ⟨true, m⟩ := by
            rw [thread.eq_def]
            cases m.pc <;> rfl
          rw [moved] at turn
          obtain ⟨m', first, rfl⟩ := Option.map_eq_some_iff.mp turn
          obtain ⟨started, later⟩ := ih rfl
          exact ⟨started, .step (.thread first) later⟩
      | irq raised =>
          obtain ⟨started, later⟩ := ih rfl
          exact ⟨started, .step (.irq raised) later⟩

/-- The blobs are prepared once in each inference, by its first step: no block has started,
and no interrupt can come before. From there on the inference is one of the machine. -/
theorem prepared_once (free : s.aton_ip_owner = false)
    (run : Runs net ec_inference_init (start s sem) ls t) :
    t = start s sem ∧ ls = [] ∨
      (ec_inference_init s.data = none ∧ t.machine.pc = .failed ∧ ls = [.thread]) ∨
      ∃ d ls', ec_inference_init s.data = some d ∧ t.inference_started = true ∧
        ls = .thread :: ls' ∧
        Machine.Runs net (Machine.start { s with data := d } sem) ls' t.machine := by
  cases run with
  | done _ => exact .inl ⟨rfl, rfl⟩
  | step turn rest =>
      cases turn with
      | irq raised =>
          have owner : s.aton_ip_owner = true := raised.1
          rw [free] at owner
          cases owner
      | thread turn =>
          cases prepared : ec_inference_init s.data with
          | some d =>
              have first : thread net ec_inference_init (start s sem) =
                  some ⟨true, Machine.start { s with data := d } sem⟩ := by
                simp only [thread, start, Machine.start, prepared]
              rw [first] at turn
              cases turn
              obtain ⟨started, later⟩ := runs_machine rest
              exact .inr (.inr ⟨d, _, rfl, started, rfl, later⟩)
          | none =>
              have first : thread net ec_inference_init (start s sem) =
                  some ⟨false, { Machine.start s sem with pc := .failed }⟩ := by
                simp only [thread, start, Machine.start, prepared]
              rw [first] at turn
              cases turn
              cases rest with
              | done _ => exact .inr (.inl ⟨rfl, rfl, rfl⟩)
              | step turn _ =>
                  cases turn with
                  | thread turn => cases turn
                  | irq raised =>
                      have owner : s.aton_ip_owner = true := raised.1
                      rw [free] at owner
                      cases owner

/-- Every run of the machine is one of an inference under way. -/
theorem runs_started {m m' : Machine ι σ} (run : Machine.Runs net m ls m') :
    Runs net ec_inference_init ⟨true, m⟩ ls ⟨true, m'⟩ := by
  induction run with
  | done m => exact .done _
  | @step m _ _ _ _ turn _ ih =>
      cases turn with
      | thread turn =>
          refine .step (.thread ?_) ih
          rw [Started.thread.eq_def]
          cases hpc : m.pc <;> simp only [turn] <;> rfl
      | irq raised => exact .step (.irq raised) ih

/-- An inference can get done, if it does when it polls. -/
theorem exists_done {d : σ} {n : ℕ} {r : State ι σ} (init : ec_inference_init s.data = some d)
    (poll : after (State.pollStep net) n { s with data := d } = some r) (done : r.Done net)
    (sem : ℕ) : ∃ ls t, Runs net ec_inference_init (start s sem) ls t ∧ t.machine.pc = .done ∧
      t.machine.rt = r := by
  obtain ⟨ls, m, run, ended⟩ :=
    Machine.Runs.exists_done ⟨n, r, poll, done⟩ (.done (Machine.start _ sem))
  have first : thread net ec_inference_init (start s sem) =
      some ⟨true, Machine.start { s with data := d } sem⟩ := by
    simp only [thread, start, Machine.start, init]
  exact ⟨_, _, .step (.thread first) (runs_started run), ended, run.result poll done ended⟩

/-! ## Inferences in a row -/

/-- `Run_Inference`, between whose calls other code stores the input. The reset clears the
flag. -/
inductive Session (net : Program ι σ) (ec_inference_init : σ → Option σ) :
    State ι σ → ℕ → List (σ → σ) → State ι σ → ℕ → Prop where
  | nil (s : State ι σ) (sem : ℕ) : Session net ec_inference_init s sem [] s sem
  | cons {s s' r : State ι σ} {sem sem' : ℕ} {t : Started ι σ} {ls : List Machine.Label}
      {x : σ → σ} {xs : List (σ → σ)}
      (run : Runs net ec_inference_init (start { s with data := x s.data } sem) ls t)
      (done : t.machine.pc = .done) (reset : t.machine.rt.Reset_Network = some s')
      (later : Session net ec_inference_init s' t.machine.wfe_sem xs r sem') :
      Session net ec_inference_init s sem (x :: xs) r sem'

omit [DecidableEq ι] in
theorem free_of_reset {r s' : State ι σ} (reset : r.Reset_Network = some s') :
    s'.aton_ip_owner = false := by
  rw [State.Reset_Network, State.DeInit_Network] at reset
  obtain ⟨q, deInit, same⟩ := Option.bind_eq_some_iff.mp reset
  cases same
  by_cases owner : (r.callback none .NN_DeInit).aton_ip_owner = true
  · rw [if_pos owner, State.clear_aton_owner] at deInit
    obtain ⟨-, cleared⟩ := Option.ite_none_right_eq_some.mp deInit
    cases cleared
    rfl
  · rw [if_neg owner] at deInit
    cases deInit
    exact Bool.eq_false_iff.mpr owner

/-- What an inference works on: the input, with the blobs prepared for it. -/
def prepare (ec_inference_init : σ → Option σ) (x : σ → σ) (d : σ) : σ :=
  (ec_inference_init (x d)).getD (x d)

/-- Preparing the blobs belongs to the input. -/
theorem Session.unprepared {r : State ι σ} {sem' : ℕ} {xs : List (σ → σ)}
    (session : Session net ec_inference_init s sem xs r sem') (free : s.aton_ip_owner = false) :
    Aton.Session net s sem (xs.map (prepare ec_inference_init)) r sem' := by
  induction session with
  | nil s sem => exact .nil s sem
  | @cons s _ _ _ _ _ _ x _ run done reset _ ih =>
      have next := ih (free_of_reset reset)
      have unowned : ({ s with data := x s.data } : State ι σ).aton_ip_owner = false := free
      rcases prepared_once unowned run with ⟨rfl, -⟩ | ⟨-, failed, -⟩ | ⟨d, ls', init, -, -, later⟩
      · cases done
      · rw [failed] at done
        cases done
      · have prepared : prepare ec_inference_init x s.data = d := by
          rw [prepare, show ec_inference_init (x s.data) = some d from init, Option.getD_some]
        rw [← prepared] at later
        exact .cons later done reset next

end Started
end PeopleDetection.Aton
