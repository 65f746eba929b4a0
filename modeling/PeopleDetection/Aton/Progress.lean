import PeopleDetection.Aton.Refinement

/-!
# Progress of the asynchronous runtime

A thread that cannot go on sleeps while units are at work. These can report the end of
their work in one interrupt, which wakes the thread and lowers the credit. Hence an
inference gets done from every state that it reaches.
-/

namespace PeopleDetection.Aton

open Library

variable {ι σ : Type} {net : Program ι σ} {eb : EpochBlock_ItemTypeDef ι σ}
variable {s t : State ι σ} {m m' : Machine ι σ} {irqs : BitVec 32} {p : EpochPtr ι}

namespace Machine

/-! ## Interrupts that are due -/

/-- A block without a blob waits for streaming engines. -/
theorem waitMask_engines (hb : net.block p = some eb) (blob : EpochBlock_IsEpochBlob eb = false) :
    s.waitMask eb p &&& ~~~ATON_STRENG_INT_MASK = 0 := by
  have member := Program.block_mem hb
  rw [State.waitMask]
  cases list : p.list with
  | network =>
      rw [list] at member
      exact net.engines eb member blob
  | lib i => exact (s.masks i p.index).2

/-- Units that a block waits for can report in one interrupt. -/
theorem exists_irqs (hb : net.block m.current = some eb) (busy : m.running ≠ 0)
    (subset : m.running &&& ~~~(m.rt.GetWaitMask eb m.current) = 0) :
    ∃ irqs, irqs &&& ~~~(expected eb) = 0 ∧ m.reported eb irqs = m.running := by
  rw [State.GetWaitMask] at subset
  cases blob : EpochBlock_IsEpochBlob eb with
  | true =>
      have unit : EpochBlock_EpochControllerUnit eb = 0 := by
        have controller := net.controllers _ eb (Program.block_mem hb) blob
        apply BitVec.eq_of_toNat_eq
        simpa using controller
      rw [if_pos blob, unit] at subset
      refine ⟨0x10000000#32, ?_, ?_⟩
      · rw [expected, if_pos blob, unit]
        decide
      · rw [reported, if_pos blob, unit, if_pos (by decide)]
        exact (BitSet.eq_one_of_subset subset busy).symm
  | false =>
      rw [blob, if_neg (by decide)] at subset
      have engines := waitMask_engines (s := m.rt) hb blob
      have inside := BitSet.subset_trans subset engines
      refine ⟨m.running, ?_, ?_⟩
      · rw [expected, blob]
        exact inside
      · rw [reported, blob, if_neg (by decide), BitSet.inter_eq_of_subset subset,
          BitSet.inter_eq_of_subset inside]

variable [DecidableEq ι]

/-- While units are at work, the thread waits for them and owns the hardware. -/
theorem Tracks.working (tracks : Tracks net s m) (busy : m.running ≠ 0) :
    ∃ eb, net.block m.current = some eb ∧ m.rt.aton_ip_owner = true ∧
      m.triggered_events ||| m.running = m.rt.GetWaitMask eb m.current ∧
      (m.pc = .launched ∨ m.pc = .wfe ∨ m.pc = .head) ∧ m.current_epoch_block_started = true := by
  cases tracks with
  | waiting b rt whole disjoint started wakes pc =>
      rename_i s' eb
      rw [if_neg busy] at rt
      have here : m.current = s.exec_state.current_epoch_block := by
        rw [current, rt, b.launched_current]
      rw [here, rt]
      refine ⟨eb, b.block_eq, b.launched_owner ?_, whole, pc.imp_right And.left, started⟩
      rw [← whole]
      exact fun none => busy (BitVec.or_eq_zero_iff.mp none).2
  | between rt quiet => exact absurd quiet.2 busy
  | arm b rt quiet => exact absurd quiet.2 busy
  | launch b rt quiet => exact absurd quiet.2 busy
  | clear b rt whole waits running => exact absurd running busy
  | finish b rt quiet => exact absurd quiet.2 busy
  | disarm b rt quiet => exact absurd quiet.2 busy
  | release b rt quiet => exact absurd quiet.2 busy
  | advance b rt quiet => exact absurd quiet.2 busy
  | done rt quiet => exact absurd quiet.2 busy

/-- The units that a block waits for are at work, or their events are recorded. -/
theorem Tracks.events (tracks : Tracks net s m) :
    m.triggered_events &&& m.running = 0 ∧
      (m.triggered_events ||| m.running = 0 ∨ ∃ eb, net.block m.current = some eb ∧
        m.triggered_events ||| m.running = m.rt.GetWaitMask eb m.current ∧
        m.current_epoch_block_started = true) := by
  have quiet (h : m.Quiet) : m.triggered_events &&& m.running = 0 ∧
      m.triggered_events ||| m.running = 0 := by simp [h.1, h.2]
  have split {s' eb} (b : BlockRun net eb s s')
      (rt : m.rt = b.launched.wait net eb s.exec_state.current_epoch_block ∨ m.rt = b.launched) :
      m.current = s.exec_state.current_epoch_block ∧
        m.rt.GetWaitMask eb m.current =
          b.launched.GetWaitMask eb s.exec_state.current_epoch_block := by
    have here : m.current = s.exec_state.current_epoch_block := by
      rcases rt with rt | rt
      · rw [current, rt, State.wait]
        split_ifs <;> exact b.launched_current
      · rw [current, rt, b.launched_current]
    refine ⟨here, ?_⟩
    rw [here]
    rcases rt with rt | rt
    · rw [rt, State.wait]
      split_ifs <;> rfl
    · rw [rt]
  cases tracks with
  | waiting b rt whole disjoint started wakes pc =>
      rename_i s' eb
      obtain ⟨here, mask⟩ := split b (by rw [rt]; split_ifs <;> simp)
      exact ⟨disjoint, .inr ⟨eb, by rw [here, b.block_eq], by rw [mask, whole], started⟩⟩
  | clear b rt whole waits running started pc =>
      rename_i s' eb
      obtain ⟨here, mask⟩ := split b (.inl rt)
      refine ⟨by simp [running], .inr ⟨eb, by rw [here, b.block_eq], ?_, started⟩⟩
      rw [mask, ← whole, running]
      simp
  | between rt h => exact ⟨(quiet h).1, .inl (quiet h).2⟩
  | arm b rt h => exact ⟨(quiet h).1, .inl (quiet h).2⟩
  | launch b rt h => exact ⟨(quiet h).1, .inl (quiet h).2⟩
  | finish b rt h => exact ⟨(quiet h).1, .inl (quiet h).2⟩
  | disarm b rt h => exact ⟨(quiet h).1, .inl (quiet h).2⟩
  | release b rt h => exact ⟨(quiet h).1, .inl (quiet h).2⟩
  | advance b rt h => exact ⟨(quiet h).1, .inl (quiet h).2⟩
  | done rt h => exact ⟨(quiet h).1, .inl (quiet h).2⟩

/-- The interrupt that the units at work are going to raise. -/
theorem Tracks.exists_report (tracks : Tracks net s m) (busy : m.running ≠ 0) :
    ∃ irqs, m.Raised net irqs ∧ (m.interrupt net irqs).running = 0 ∧
      0 < (m.interrupt net irqs).wfe_sem ∧ 1 + (m.interrupt net irqs).credit ≤ m.credit := by
  obtain ⟨eb, hb, owner, whole, _⟩ := tracks.working busy
  have subset : m.running &&& ~~~(m.rt.GetWaitMask eb m.current) = 0 :=
    BitSet.subset_of_whole (by rw [BitVec.or_comm]; exact whole)
  obtain ⟨irqs, errors, all⟩ := exists_irqs hb busy subset
  have raised : m.Raised net irqs := ⟨owner, eb, hb, errors, by rw [all]; simp⟩
  have rest : m.running &&& ~~~(m.reported eb irqs) = 0 := by rw [all]; simp
  refine ⟨irqs, raised, ?_, ?_, ?_⟩
  · rw [interrupt_eq raised hb]
    simp only [settle, hb]
    exact rest
  · rw [interrupt_eq raised hb]
    exact m.given_pos
  · have given : min (m.wfe_sem + 1) UINT_MAX ≤ m.wfe_sem + 1 := Nat.min_le_left _ _
    rw [interrupt_credit raised hb, if_pos rest, credit, if_neg busy]
    omega

/-! ## The thread that does not go on -/

theorem pc_of_stopped (stopped : m.thread net = none) :
    m.pc = .done ∨ m.pc = .failed ∨ m.pc = .wfe ∧ m.wfe_sem = 0 := by
  rw [thread] at stopped
  split at stopped
  · exact .inl ‹_›
  · exact .inr (.inl ‹_›)
  · exact .inr (.inr ⟨‹_›, by simpa using stopped⟩)
  · cases stopped
  · split at stopped <;> cases stopped

theorem Tracks.not_failed (tracks : Tracks net s m) : m.pc ≠ .failed := by
  cases tracks <;> grind

/-- The thread sleeps only while units are at work. -/
theorem Tracks.stopped (tracks : Tracks net s m) (stopped : m.thread net = none) :
    m.pc = .done ∨ m.pc = .wfe ∧ m.running ≠ 0 := by
  rcases pc_of_stopped stopped with done | failed | ⟨asleep, sem⟩
  · exact .inl done
  · exact absurd failed tracks.not_failed
  · refine .inr ⟨asleep, fun still => ?_⟩
    cases tracks with
    | waiting b rt whole disjoint started wakes pc =>
        rename_i s' eb
        have waits : b.launched.GetWaitMask eb s.exec_state.current_epoch_block ≠ 0 := by
          rcases pc with no | ⟨_, waits⟩
          · rw [no] at asleep
            cases asleep
          · exact waits
        have given := wakes (by simp [asleep]) still waits
        omega
    | _ => grind

/-- The end of an inference. -/
theorem Tracks.ended (tracks : Tracks net s m) (done : m.pc = .done) :
    m.rt = s ∧ s.Done net ∧ m.Quiet ∧ m.current_epoch_block_started = false := by
  cases tracks with
  | done rt quiet idle done' pc => exact ⟨rt, done', quiet, idle⟩
  | _ => grind

/-- Between two blocks. -/
theorem Tracks.idle (tracks : Tracks net s m) (idle : m.current_epoch_block_started = false) :
    m.rt = s := by
  cases tracks with
  | between rt => exact rt
  | done rt => exact rt
  | _ => simp_all

/-- An inference that completes gets done from here. -/
theorem Tracks.exists_done {n : ℕ} (tracks : Tracks net s m)
    (poll : after (State.pollStep net) n s = some t) (done : t.Done net) :
    ∃ ls m', Runs net m ls m' ∧ m'.pc = .done := by
  obtain ⟨N, hN⟩ : ∃ N, m.credit + RATE * n ≤ N := ⟨_, Nat.le_refl _⟩
  induction N using Nat.strong_induction_on generalizing s m n with
  | _ N ih =>
      cases turn : m.thread net with
      | some m' =>
          obtain ⟨k, s', moved, tracks', paid⟩ := tracks.thread ⟨n, t, poll, done⟩ turn
          obtain ⟨le, rest⟩ := after_split poll done.pollStep moved
          have less : m'.credit + RATE * (n - k) < N := by
            simp only [RATE] at paid hN ⊢
            omega
          obtain ⟨ls, m'', run, ended⟩ := ih _ less tracks' rest (Nat.le_refl _)
          exact ⟨.thread :: ls, m'', .step (.thread turn) run, ended⟩
      | none =>
          rcases tracks.stopped turn with ended | ⟨_, busy⟩
          · exact ⟨[], m, .done m, ended⟩
          · obtain ⟨irqs, raised, _, _, paid⟩ := tracks.exists_report busy
            have less : (m.interrupt net irqs).credit + RATE * n < N := by omega
            obtain ⟨ls, m'', run, ended⟩ :=
              ih _ less (tracks.interrupt raised) poll (Nat.le_refl _)
            exact ⟨.irq irqs :: ls, m'', .step (.irq raised) run, ended⟩

/-! ## The callback -/

omit [DecidableEq ι] in
theorem interrupt_trace (raised : m.Raised net irqs) :
    (m.interrupt net irqs).rt.trace = m.rt.trace := by
  obtain ⟨_, eb, hb, _⟩ := id raised
  rw [interrupt_eq raised hb]
  simp only [settle, hb]
  split_ifs <;> rfl

/-- Polling goes from `s` to a state with the calls of the callback that `m` has made, apart from
some of the four for the block that `m` is in. -/
def Traced (net : Program ι σ) (s : State ι σ) (m : Machine ι σ) : Prop :=
  ∃ k t part, after (State.pollStep net) k s = some t ∧ part <+: callbacksOf m.subject ∧
    (part ≠ [] → m.subject = t.exec_state.current_epoch_block) ∧ m.rt.trace = t.trace ++ part

theorem traced_inside {part : List (CallbackCall ι)}
    (here : m.subject = s.exec_state.current_epoch_block)
    (made : part <+: callbacksOf s.exec_state.current_epoch_block)
    (trace : m.rt.trace = s.trace ++ part) : Traced net s m :=
  ⟨0, s, part, rfl, by rw [here]; exact made, fun _ => here, trace⟩

theorem traced_between (same : m.rt.trace = t.trace) {k : ℕ}
    (moved : after (State.pollStep net) k s = some t) : Traced net s m :=
  ⟨k, t, [], moved, List.nil_prefix, fun no => absurd rfl no, by rw [same, List.append_nil]⟩

/-- In a block that has been launched, two calls have been made. -/
theorem traced_launched {s' : State ι σ} (b : BlockRun net eb s s')
    (rt : m.rt = b.launched.wait net eb s.exec_state.current_epoch_block ∨ m.rt = b.launched)
    (here : m.subject = m.current) : Traced net s m := by
  have same : m.current = b.launched.exec_state.current_epoch_block ∧
      m.rt.trace = b.launched.trace := by
    rcases rt with rt | rt
    · rw [current, rt, State.wait]
      split_ifs <;> exact ⟨rfl, rfl⟩
    · rw [current, rt]
      exact ⟨rfl, rfl⟩
  exact traced_inside (here.trans (same.1.trans b.launched_current)) ⟨[_, _], rfl⟩
    (same.2.trans b.launched_trace)

/-- Behind its last call a block counts as run, although the runtime has not determined the next
one. -/
theorem Tracks.trace (tracks : Tracks net s m) : Traced net s m := by
  cases tracks with
  | between rt => exact traced_between (congrArg _ rt) (after_zero s)
  | done rt => exact traced_between (congrArg _ rt) (after_zero s)
  | arm b rt _ _ pc =>
      exact traced_inside (by rw [subject, pc, current, rt, b.opened_current]) ⟨[_, _, _], rfl⟩
        (by rw [rt, State.openBlock_trace b.open_eq])
  | launch b rt _ _ pc =>
      exact traced_inside (by rw [subject, pc, current, rt, b.armed_current]) ⟨[_, _, _], rfl⟩
        (by rw [rt, (State.armBlock_same b.arm_eq).2, State.openBlock_trace b.open_eq])
  | waiting b rt _ _ _ _ pc =>
      refine traced_launched b ?_ ?_
      · rw [rt]
        split_ifs
        · exact .inl rfl
        · exact .inr rfl
      · rcases pc with pc | ⟨pc | pc, _⟩ <;> rw [subject, pc]
  | clear b rt _ _ _ _ pc => exact traced_launched b (.inl rt) (by rw [subject, pc])
  | finish b rt _ _ pc =>
      obtain ⟨ended, pc⟩ := pc
      exact traced_launched b (.inl rt) (by rw [subject, pc])
  | disarm b rt _ _ pc =>
      obtain ⟨ended, pc⟩ := pc
      exact traced_inside (by rw [subject, pc]) ⟨[_], rfl⟩ (by rw [rt, b.finished_trace])
  | release b rt _ _ pc =>
      obtain ⟨ended, pc⟩ := pc
      exact traced_inside (by rw [subject, pc]) ⟨[_], rfl⟩
        (by rw [rt, State.disarmBlock_trace b.disarm_eq, b.finished_trace])
  | advance b rt =>
      refine traced_between (k := 1) ?_ ((after_one _).trans (State.pollStep_of_blockRun b))
      rw [rt, State.DetermineNextEpochBlock_trace b.next_eq]

end Machine
end PeopleDetection.Aton
