import PeopleDetection.Aton.Network
import PeopleDetection.Aton.Progress
import PeopleDetection.Inference.Coherence

/-!
# Inferences of the asynchronous runtime

Whatever interrupts arrive, and whenever they do, an inference of the asynchronous runtime
does what one does that polls. It fails no assertion, loses no event and no wake-up, and
shares the memory with the hardware in turns.

The results are about programs that run when they are polled. Inferences follow one
another: `Run_Inference` resets the network, but the semaphore keeps what was given to it
after the thread had seen the last event.
-/

namespace PeopleDetection.Aton

open Library

/-! ## Runs of a small network -/

section Sample

open Machine

/-- The network of the application, computing with a number. -/
abbrev Sample : Program Empty ℕ := Default (· + 1) (· * 10) (· + 7)

theorem polled_sample : after (State.pollStep Sample) 3 (Fresh 4) =
    some (.before 3 (fun i => i.elim) 57 callbacksOf_Default) := polled_Default _ _ _ _ _ _

theorem done_sample : (State.before 3 (fun i => i.elim) 57 callbacksOf_Default).Done Sample :=
  done_Default _ _ _ _ _ _

theorem completes_sample : (Fresh 4).Completes Sample := ⟨3, _, polled_sample, done_sample⟩

def turns (n : ℕ) : List Label := List.replicate n .thread

/-- The thread falls asleep. -/
def asleepRun : List Label := turns 5

theorem run_asleep : ∃ m, exec Sample asleepRun (start (Fresh 4) 0) = some m ∧
    m.thread Sample = none ∧ m.pc = .wfe := ⟨_, rfl, rfl, rfl⟩

/-- The thread sleeps twice, until the epoch controller is done. -/
def wholeRun : List Label :=
  turns 5 ++ .irq 0x10000000#32 :: (turns 22 ++ .irq 0x10000000#32 :: turns 8)

theorem run_whole : ∃ m, exec Sample wholeRun (start (Fresh 4) 0) = some m ∧ m.pc = .done ∧
    m.current_epoch_block_started = false ∧ m.wfe_sem = 0 := ⟨_, rfl, rfl, rfl, rfl⟩

/-- The thread falls asleep in the third block. -/
def thirdRun : List Label := turns 5 ++ .irq 0x10000000#32 :: turns 22

theorem run_third : ∃ m, exec Sample thirdRun (start (Fresh 4) 0) = some m ∧
    m.subject = ⟨.network, 2⟩ ∧ m.Raised Sample 0x10000000#32 :=
  ⟨_, rfl, rfl, rfl, _, rfl, rfl, rfl⟩

end Sample

section Runs

variable {ι σ : Type} [DecidableEq ι] {net : Program ι σ} {s t : State ι σ}

namespace Machine

variable {m : Machine ι σ} {ls : List Label} {n sem : ℕ}

/-! ## One inference -/

/-- An inference that is done has reached the state that it reaches when it polls. -/
theorem Runs.result (poll : after (State.pollStep net) n s = some t) (done : t.Done net)
    (run : Runs net (start s sem) ls m) (ended : m.pc = .done) : m.rt = t := by
  obtain ⟨k, s', moved, tracks, _, _⟩ := Runs.follow ⟨n, t, poll, done⟩ run
  obtain ⟨rt, done', _⟩ := tracks.ended ended
  rw [rt]
  exact after_unique poll done.pollStep moved done'.pollStep

theorem Runs.exists_done (complete : s.Completes net) (run : Runs net (start s sem) ls m) :
    ∃ ls' m', Runs net m ls' m' ∧ m'.pc = .done := by
  obtain ⟨k, s', _, tracks, ⟨n, t, poll, done⟩, _⟩ := Runs.follow complete run
  exact tracks.exists_done poll done

/-- No assertion fails, and an inference that is done has reached the state that it reaches
when it polls. -/
theorem eq_polling (poll : after (State.pollStep net) n s = some t) (done : t.Done net)
    (run : Runs net (start s sem) ls m) : m.pc ≠ .failed ∧ (m.pc = .done → m.rt = t) := by
  obtain ⟨k, s', _, tracks, _, _⟩ := Runs.follow ⟨n, t, poll, done⟩ run
  exact ⟨tracks.not_failed, run.result poll done⟩

theorem eq_polling_sample : ∃ m, exec Sample wholeRun (start (Fresh 4) 0) = some m ∧
    m.pc ≠ .failed ∧
      (m.pc = .done → m.rt = .before 3 (fun i => i.elim) 57 callbacksOf_Default) := by
  obtain ⟨m, run, _⟩ := run_whole
  exact ⟨m, run, eq_polling polled_sample done_sample (exec_runs run)⟩

/-- The callback is called four times for each block that polling runs, in the same order. In a
block some of its four calls have been made; at the end all calls are those of polling. An
interrupt does not call it. -/
theorem callbacks_in_order (complete : s.Completes net) (run : Runs net (start s sem) ls m) :
    (∃ k s' part, after (State.pollStep net) k s = some s' ∧ part <+: callbacksOf m.subject ∧
      (part ≠ [] → m.subject = s'.exec_state.current_epoch_block) ∧
      (m.pc = .done → part = [] ∧ s'.Done net) ∧
      m.rt.trace = s.trace ++ (State.visited net k s).flatMap callbacksOf ++ part) ∧
    ∀ irqs, m.Raised net irqs → (m.interrupt net irqs).rt.trace = m.rt.trace := by
  obtain ⟨k, s', moved, tracks, _, _⟩ := Runs.follow complete run
  refine ⟨?_, fun irqs raised => interrupt_trace raised⟩
  by_cases ended : m.pc = .done
  · obtain ⟨rt, done, _⟩ := tracks.ended ended
    exact ⟨k, s', [], moved, List.nil_prefix, fun no => absurd rfl no, fun _ => ⟨rfl, done⟩, by
      rw [rt, State.after_trace moved, List.append_nil]⟩
  · obtain ⟨j, t, part, on, made, here, trace⟩ := tracks.trace
    have moved' := after_trans moved on
    exact ⟨k + j, t, part, moved', made, here, fun no => absurd no ended, by
      rw [trace, State.after_trace moved']⟩

theorem callbacks_in_order_sample : ∃ m, exec Sample thirdRun (start (Fresh 4) 0) = some m ∧
    m.subject = ⟨.network, 2⟩ ∧ m.Raised Sample 0x10000000#32 ∧
    (∃ k s' part, after (State.pollStep Sample) k (Fresh 4) = some s' ∧
      part <+: callbacksOf m.subject ∧
      (part ≠ [] → m.subject = s'.exec_state.current_epoch_block) ∧
      (m.pc = .done → part = [] ∧ s'.Done Sample) ∧
      m.rt.trace = (Fresh 4).trace ++ (State.visited Sample k (Fresh 4)).flatMap callbacksOf ++
        part) ∧
    ∀ irqs, m.Raised Sample irqs → (m.interrupt Sample irqs).rt.trace = m.rt.trace := by
  obtain ⟨m, run, third, raised⟩ := run_third
  exact ⟨m, run, third, raised, callbacks_in_order completes_sample (exec_runs run)⟩

/-- No wake-up is lost: where the thread does not go on, the inference is done, or units are
at work whose interrupt lets the thread go on. -/
theorem never_stuck (complete : s.Completes net) (run : Runs net (start s sem) ls m)
    (stopped : m.thread net = none) :
    m.pc = .done ∨ m.pc = .wfe ∧ m.running ≠ 0 ∧
      (∃ irqs, m.Raised net irqs ∧ (m.interrupt net irqs).running = 0) ∧
      ∀ irqs, m.Raised net irqs → ((m.interrupt net irqs).thread net).isSome = true := by
  obtain ⟨k, s', moved, tracks, _, _⟩ := Runs.follow complete run
  rcases tracks.stopped stopped with ended | ⟨asleep, busy⟩
  · exact .inl ended
  · obtain ⟨irqs, raised, still, _⟩ := tracks.exists_report busy
    refine .inr ⟨asleep, busy, ⟨irqs, raised, still⟩, fun irqs raised => ?_⟩
    obtain ⟨_, eb, hb, _⟩ := id raised
    rw [interrupt_eq raised hb]
    have given : min (m.wfe_sem + 1) UINT_MAX ≠ 0 := m.given_pos.ne'
    simp [thread, settle, hb, asleep, given]

theorem never_stuck_sample : ∃ m, exec Sample asleepRun (start (Fresh 4) 0) = some m ∧
    (m.pc = .done ∨ m.pc = .wfe ∧ m.running ≠ 0 ∧
      (∃ irqs, m.Raised Sample irqs ∧ (m.interrupt Sample irqs).running = 0) ∧
      ∀ irqs, m.Raised Sample irqs → ((m.interrupt Sample irqs).thread Sample).isSome = true) := by
  obtain ⟨m, run, stopped, _⟩ := run_asleep
  exact ⟨m, run, never_stuck completes_sample (exec_runs run) stopped⟩

/-- From every state that an inference reaches, it can get done with the result of the one
that polls. -/
theorem can_complete (poll : after (State.pollStep net) n s = some t) (done : t.Done net)
    (run : Runs net (start s sem) ls m) :
    ∃ ls' m', Runs net m ls' m' ∧ m'.pc = .done ∧ m'.rt = t := by
  obtain ⟨ls', m', rest, ended⟩ := run.exists_done ⟨n, t, poll, done⟩
  exact ⟨ls', m', rest, ended, Runs.result poll done (run.append rest) ended⟩

theorem can_complete_sample : ∃ m, exec Sample asleepRun (start (Fresh 4) 0) = some m ∧
    ∃ ls' m', Runs Sample m ls' m' ∧ m'.pc = .done ∧
      m'.rt = .before 3 (fun i => i.elim) 57 callbacksOf_Default := by
  obtain ⟨m, run, _⟩ := run_asleep
  exact ⟨m, run, can_complete polled_sample done_sample (exec_runs run)⟩

/-- The thread takes a bounded number of steps for each block, each interrupt and each time
that the semaphore had been given. -/
theorem thread_steps_le (poll : after (State.pollStep net) n s = some t) (done : t.Done net)
    (run : Runs net (start s sem) ls m) :
    ls.countP Label.isThread ≤ 14 * n + 2 * (sem + ls.countP Label.isIrq) + 12 := by
  obtain ⟨k, s', moved, _, _, paid⟩ := Runs.follow ⟨n, t, poll, done⟩ run
  obtain ⟨le, _⟩ := after_split poll done.pollStep moved
  have credit : (start s sem).credit = 2 * sem + 12 := rfl
  rw [Label.sum_price, Label.sum_yield, credit, RATE] at paid
  omega

theorem thread_steps_le_sample : (∃ m, exec Sample wholeRun (start (Fresh 4) 0) = some m) ∧
    wholeRun.countP Label.isThread ≤ 14 * 3 + 2 * (0 + wholeRun.countP Label.isIrq) + 12 := by
  obtain ⟨m, run, _⟩ := run_whole
  exact ⟨⟨m, run⟩, thread_steps_le polled_sample done_sample (exec_runs run)⟩

/-! ## Events and the memory -/

/-- A unit that a block waits for is at work, or its event is recorded: no event is lost, none
is recorded twice, and none is left over for the next block. -/
theorem events_split (complete : s.Completes net) (run : Runs net (start s sem) ls m) :
    m.triggered_events &&& m.running = 0 ∧
      (m.triggered_events ||| m.running = 0 ∨ ∃ eb, net.block m.current = some eb ∧
        m.triggered_events ||| m.running = m.rt.GetWaitMask eb m.current ∧
        m.current_epoch_block_started = true) := by
  obtain ⟨k, s', _, tracks, _, _⟩ := Runs.follow complete run
  exact tracks.events

theorem events_split_sample : ∃ m, exec Sample asleepRun (start (Fresh 4) 0) = some m ∧
    m.triggered_events &&& m.running = 0 ∧
      (m.triggered_events ||| m.running = 0 ∨ ∃ eb, Sample.block m.current = some eb ∧
        m.triggered_events ||| m.running = m.rt.GetWaitMask eb m.current ∧
        m.current_epoch_block_started = true) := by
  obtain ⟨m, run, _⟩ := run_asleep
  exact ⟨m, run, events_split completes_sample (exec_runs run)⟩

/-- The thread and the hardware take turns with the memory. While units are at work, the
thread owns the hardware and leaves the memory and the runtime alone; while none is, an
interrupt does. -/
theorem memory_in_turns (complete : s.Completes net) (run : Runs net (start s sem) ls m) :
    (m.running ≠ 0 → m.rt.aton_ip_owner = true ∧
      ∀ m', m.thread net = some m' → m'.rt = m.rt ∧ m'.running = m.running) ∧
    (m.running = 0 → ∀ irqs, m.Raised net irqs → (m.interrupt net irqs).rt = m.rt) := by
  obtain ⟨k, s', _, tracks, _, _⟩ := Runs.follow complete run
  refine ⟨fun busy => ?_, fun still irqs raised => by rw [interrupt_of_still still raised]⟩
  obtain ⟨eb, hb, owner, whole, pc, started⟩ := tracks.working busy
  refine ⟨owner, fun m' turn => ?_⟩
  rcases pc with pc | pc | pc
  · simp only [thread, pc, subject, hb, threadAt, atLaunched] at turn
    cases turn
    split_ifs <;> exact ⟨rfl, rfl⟩
  · simp only [thread, pc] at turn
    obtain ⟨_, turn⟩ := Option.ite_none_left_eq_some.mp turn
    cases turn
    exact ⟨rfl, rfl⟩
  · simp only [thread, pc, subject, hb, threadAt, atHead] at turn
    cases turn
    split_ifs <;> exact ⟨rfl, rfl⟩

theorem memory_in_turns_sample : ∃ m, exec Sample asleepRun (start (Fresh 4) 0) = some m ∧
    (m.running ≠ 0 → m.rt.aton_ip_owner = true ∧
      ∀ m', m.thread Sample = some m' → m'.rt = m.rt ∧ m'.running = m.running) ∧
    (m.running = 0 → ∀ irqs, m.Raised Sample irqs → (m.interrupt Sample irqs).rt = m.rt) := by
  obtain ⟨m, run, _⟩ := run_asleep
  exact ⟨m, run, memory_in_turns completes_sample (exec_runs run)⟩

/-! ## The owner of the hardware -/

/-- Between two blocks, the hardware is owned exactly while an inserted array runs. At the end
it is free, and the network can be reset. -/
theorem owner_between_blocks (settled : s.Settled) (complete : s.Completes net)
    (run : Runs net (start s sem) ls m) (idle : m.current_epoch_block_started = false) :
    m.rt.aton_ip_owner = m.rt.exec_state.saved_current_epoch_block.isSome ∧
      (m.rt.aton_ip_owner = false → m.rt.current_wait_mask = 0) ∧
      (m.pc = .done → m.rt.aton_ip_owner = false ∧ m.triggered_events = 0 ∧
        ∃ s', m.rt.Reset_Network = some s' ∧ s'.Settled) := by
  obtain ⟨k, s', moved, tracks, _, _⟩ := Runs.follow complete run
  have settled' := settled.after complete moved
  have same : m.rt = s' := tracks.idle idle
  rw [same]
  refine ⟨settled'.owner, settled'.mask, fun ended => ?_⟩
  obtain ⟨_, done, quiet, _⟩ := tracks.ended ended
  exact ⟨settled'.unowned done, quiet.1, settled'.reset done⟩

theorem owner_between_blocks_sample : ∃ m, exec Sample wholeRun (start (Fresh 4) 0) = some m ∧
    m.rt.aton_ip_owner = m.rt.exec_state.saved_current_epoch_block.isSome ∧
      (m.rt.aton_ip_owner = false → m.rt.current_wait_mask = 0) ∧
      (m.pc = .done → m.rt.aton_ip_owner = false ∧ m.triggered_events = 0 ∧
        ∃ s', m.rt.Reset_Network = some s' ∧ s'.Settled) := by
  obtain ⟨m, run, _, idle, _⟩ := run_whole
  exact ⟨m, run, owner_between_blocks (settled_fresh 4) completes_sample (exec_runs run) idle⟩

end Machine

/-! ## Inferences in a row -/

/-- `Run_Inference`, between whose calls other code stores the input. -/
inductive Session (net : Program ι σ) : State ι σ → ℕ → List (σ → σ) → State ι σ → ℕ → Prop where
  | nil (s : State ι σ) (sem : ℕ) : Session net s sem [] s sem
  | cons {s s' t : State ι σ} {sem sem' : ℕ} {m : Machine ι σ} {ls : List Machine.Label}
      {x : σ → σ} {xs : List (σ → σ)}
      (run : Machine.Runs net (.start { s with data := x s.data } sem) ls m)
      (done : m.pc = .done) (reset : m.rt.Reset_Network = some s')
      (later : Session net s' m.wfe_sem xs t sem') : Session net s sem (x :: xs) t sem'

/-- The inferences of a session, polled. -/
inductive PolledSession (net : Program ι σ) : State ι σ → List (σ → σ) → State ι σ → Prop where
  | nil (s : State ι σ) : PolledSession net s [] s
  | cons {s r s' t : State ι σ} {n : ℕ} {x : σ → σ} {xs : List (σ → σ)}
      (run : after (State.pollStep net) n { s with data := x s.data } = some r)
      (done : r.Done net) (reset : r.Reset_Network = some s')
      (later : PolledSession net s' xs t) : PolledSession net s (x :: xs) t

theorem Session.result {xs : List (σ → σ)} {t' : State ι σ} {sem sem' : ℕ}
    (session : Session net s sem xs t' sem') (polled : PolledSession net s xs t) : t' = t := by
  induction session generalizing t with
  | nil s sem =>
      cases polled
      rfl
  | cons run ended reset _ ih =>
      cases polled with
      | cons poll done reset' later =>
          have same := run.result poll done ended
          rw [same, reset'] at reset
          cases reset
          exact ih later

theorem PolledSession.exists_session {xs : List (σ → σ)} (polled : PolledSession net s xs t)
    (sem : ℕ) : ∃ sem', Session net s sem xs t sem' := by
  induction polled generalizing sem with
  | nil s => exact ⟨sem, .nil s sem⟩
  | cons poll done reset _ ih =>
      obtain ⟨ls, m, run, ended⟩ :=
        Machine.Runs.exists_done ⟨_, _, poll, done⟩ (.done (Machine.start _ sem))
      have same := run.result poll done ended
      obtain ⟨sem', later⟩ := ih m.wfe_sem
      exact ⟨sem', .cons run ended (by rw [same, reset]) later⟩

/-- After two inferences, the second on the result of the first and 3. -/
def resetTwice : State Empty ℕ :=
  .before 0 (fun i => i.elim) 617 (callbacksOf_Default ++ callbacksOfReset ++
    callbacksOf_Default ++ callbacksOfReset)

/-- A session of asynchronous inferences has the result of the polled one, and there is one,
whatever the semaphore was given before. -/
theorem session_eq_polled {xs : List (σ → σ)} (polled : PolledSession net s xs t) (sem : ℕ) :
    (∀ t' sem', Session net s sem xs t' sem' → t' = t) ∧
      ∃ sem', Session net s sem xs t sem' :=
  ⟨fun _ _ session => session.result polled, polled.exists_session sem⟩

theorem session_eq_polled_sample :
    (∀ t' sem', Session Sample (Fresh 4) 2 [id, (· + 3)] t' sem' → t' = resetTwice) ∧
    ∃ sem', Session Sample (Fresh 4) 2 [id, (· + 3)] resetTwice sem' :=
  session_eq_polled
    (.cons polled_sample done_sample (reset_before 3 _ _ _)
      (.cons (polled_Default _ _ _ _ _ _) (done_Default _ _ _ _ _ _) (reset_before 3 _ _ _)
        (.nil _))) 2

end Runs

/-! ## The network of the application -/

section Network

variable {σ V : Type} {f g h : σ → σ} {data : σ} {xs : List (σ → σ)} {t : State Empty σ}
variable {sem sem' : ℕ}

theorem polledSession_Default (f g h : σ → σ) (xs : List (σ → σ)) (masks : LibMasks Empty)
    (data : σ) (trace : List (CallbackCall Empty)) :
    PolledSession (Default f g h) (.before 0 masks data trace) xs
      (.before 0 masks (xs.foldl (fun d x => h (g (f (x d)))) data)
        (trace ++ xs.flatMap fun _ => callbacksOf_Default ++ callbacksOfReset)) := by
  induction xs generalizing data trace with
  | nil =>
      rw [List.flatMap_nil, List.append_nil]
      exact .nil _
  | cons x xs ih =>
      rw [List.flatMap_cons, ← List.append_assoc, ← List.append_assoc]
      exact .cons (polled_Default f g h masks (x data) trace)
        (done_Default f g h masks _ _) (reset_before 3 masks _ _) (ih _ _)

/-- Inferences in a row with the network of the application. Each runs the start routine, the
NPU and the end routine once and in this order on what the one before has left. The callback
is called for the three blocks, and then for the reset. -/
theorem session_Default (session : Session (Default f g h) (Fresh data) sem xs t sem') :
    t.data = xs.foldl (fun d x => h (g (f (x d)))) data ∧
      t.trace = xs.flatMap fun _ => callbacksOf_Default ++ callbacksOfReset := by
  rw [session.result (polledSession_Default f g h xs _ data [])]
  exact ⟨rfl, List.nil_append _⟩

theorem session_Default_sample : ∃ t sem', Session Sample (Fresh 4) 0 [id, (· + 3)] t sem' ∧
    t.data = 617 ∧
      t.trace = callbacksOf_Default ++ callbacksOfReset ++
        (callbacksOf_Default ++ callbacksOfReset) := by
  obtain ⟨sem', session⟩ :=
    (polledSession_Default (· + 1) (· * 10) (· + 7) [id, (· + 3)] _ 4 []).exists_session 0
  exact ⟨_, sem', session, session_Default session⟩

/-- The operations of an inference are those of the program that the memory sees. -/
theorem operations_Default {net : Network V} {images : List (ℕ → V)} {t : State Empty (List (Op V))}
    (session : Session (Default (· ++ ec_blob_cache_start_func_1) (· ++ npuEpochs net)
        (· ++ LL_ATON_End_EpochBlock_21 net)) (Fresh []) sem
      (images.map fun image ops => ops ++ (fs_read image ++ (flushImage ++ invalidateOutputs)))
      t sem') :
    t.data = images.flatMap fun image => prepare image ++ (npuEpochs net ++ finish net) := by
  rw [session.result (polledSession_Default _ _ _ _ _ _ [])]
  change List.foldl _ _ _ = _
  rw [List.foldl_map, List.flatMap_eq_foldl]
  congr 1
  funext ops image
  simp only [prepare, finish_eq, List.append_assoc]

end Network
end PeopleDetection.Aton
