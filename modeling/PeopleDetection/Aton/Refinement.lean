import Mathlib.Tactic.IntervalCases
import PeopleDetection.Aton.Machine
import PeopleDetection.Aton.Polling
import PeopleDetection.Library.BitSets

/-!
# The asynchronous runtime runs the blocks in order

Whatever interrupts arrive, and whenever they do, the thread takes the parts of a block in
the order of the runtime that polls. Between the start of a block and its end it only
looks at the events. These and the units still at work split the wait mask of the block.

The relation is kept with a credit. It pays for the steps of the thread until the block
ends, for the two steps in which the thread wakes and falls asleep again, and for the
interrupt that the last unit raises.
-/

namespace PeopleDetection.Aton

open Library

variable {ι σ : Type} {net : Program ι σ} {eb : EpochBlock_ItemTypeDef ι σ}
variable {s s' : State ι σ} {m m' : Machine ι σ} {irqs : BitVec 32}

/-! ## Events -/

theorem IrqEpochBlock_eq (irqs mask t : BitVec 32) :
    Machine.IrqEpochBlock irqs mask t = t ||| (irqs &&& mask &&& ATON_STRENG_INT_MASK) := by
  rw [Machine.IrqEpochBlock]
  split_ifs with h
  · apply BitVec.eq_of_getLsbD_eq
    intro j hj
    have engines : ATON_STRENG_INT_MASK.getLsbD j = decide (j ∈ List.range ATON_STRENG_NUM) := by
      interval_cases j <;> rfl
    rw [BitSet.getLsbD_foldl_set _ _ hj, BitVec.getLsbD_or, BitVec.getLsbD_and (x := irqs &&& mask),
      engines, Bool.and_comm (decide _)]
  · rw [not_not.mp h]
    simp

namespace Machine

/-- An interrupt adds the events that it reports, and gives the semaphore. -/
theorem interrupt_eq (raised : m.Raised net irqs)
    (hb : net.block m.current = some eb) :
    m.interrupt net irqs =
      { m.settle net irqs with
        triggered_events := m.triggered_events ||| m.reported eb irqs
        wfe_sem := min (m.wfe_sem + 1) UINT_MAX } := by
  obtain ⟨owner, eb', hb', errors, _⟩ := raised
  rw [hb] at hb'
  cases hb'
  have controller := net.controllers _ eb (Program.block_mem hb)
  have exec : (m.settle net irqs).rt.exec_state = m.rt.exec_state := by
    simp only [settle, hb]
    split <;> rfl
  have owner' : (m.settle net irqs).rt.aton_ip_owner = true := by
    simp only [settle, hb]
    split <;> exact owner
  have masks : (m.settle net irqs).rt.masks = m.rt.masks := by
    simp only [settle, hb]
    split <;> rfl
  have events : (m.settle net irqs).triggered_events = m.triggered_events := by
    simp only [settle, hb]
  have sem : (m.settle net irqs).wfe_sem = m.wfe_sem := by simp only [settle, hb]
  have current : (m.settle net irqs).current = m.current := by simp only [Machine.current, exec]
  have mask : (m.settle net irqs).rt.waitMask eb m.current = m.rt.waitMask eb m.current := by
    simp only [State.waitMask, masks]
  rw [interrupt, ATON_STD_IRQHandler, if_pos owner', current]
  simp only [hb, if_pos errors, events, sem, mask]
  cases blob : EpochBlock_IsEpochBlob eb with
  | true =>
      rw [blob] at controller
      simp only [Bool.not_true, Bool.false_eq_true, if_false, if_pos (controller rfl), reported,
        blob, if_true, IrqEpochBlob]
      split_ifs <;> simp
  | false =>
      simp only [Bool.not_false, if_true, reported, blob, Bool.false_eq_true, if_false,
        IrqEpochBlock_eq]

/-- While no unit is at work, an interrupt only gives the semaphore. -/
theorem interrupt_of_still (still : m.running = 0) (raised : m.Raised net irqs) :
    m.interrupt net irqs = { m with wfe_sem := min (m.wfe_sem + 1) UINT_MAX } := by
  obtain ⟨_, eb, hb, _, subset⟩ := id raised
  have nothing : m.reported eb irqs = 0 := BitSet.eq_zero_of_subset subset still
  rw [interrupt_eq raised hb]
  simp [settle, hb, nothing, still]

/-! ## The relation -/

/-- No event, and no unit at work. -/
def Quiet (m : Machine ι σ) : Prop := m.triggered_events = 0 ∧ m.running = 0

variable [DecidableEq ι]

/-- Where the asynchronous runtime is, while the polling runtime is in state `s`, in front
of a block. -/
inductive Tracks (net : Program ι σ) : State ι σ → Machine ι σ → Prop where
  | between {s : State ι σ} {m : Machine ι σ} (rt : m.rt = s) (quiet : m.Quiet)
      (idle : m.current_epoch_block_started = false)
      (pc : m.pc = .head ∨ ∃ ended, m.pc = .last ended) : Tracks net s m
  | arm {s s' : State ι σ} {eb : EpochBlock_ItemTypeDef ι σ} {m : Machine ι σ}
      (b : BlockRun net eb s s') (rt : m.rt = b.opened) (quiet : m.Quiet)
      (busy : m.current_epoch_block_started = true) (pc : m.pc = .arm) : Tracks net s m
  | launch {s s' : State ι σ} {eb : EpochBlock_ItemTypeDef ι σ} {m : Machine ι σ}
      (b : BlockRun net eb s s') (rt : m.rt = b.armed) (quiet : m.Quiet)
      (busy : m.current_epoch_block_started = true) (pc : m.pc = .launch) : Tracks net s m
  | waiting {s s' : State ι σ} {eb : EpochBlock_ItemTypeDef ι σ} {m : Machine ι σ}
      (b : BlockRun net eb s s')
      (rt : m.rt = if m.running = 0 then b.launched.wait net eb s.exec_state.current_epoch_block
        else b.launched)
      (whole : m.triggered_events ||| m.running =
        b.launched.GetWaitMask eb s.exec_state.current_epoch_block)
      (disjoint : m.triggered_events &&& m.running = 0)
      (busy : m.current_epoch_block_started = true)
      (wakes : m.pc ≠ .head → m.running = 0 →
        b.launched.GetWaitMask eb s.exec_state.current_epoch_block ≠ 0 → 0 < m.wfe_sem)
      (pc : m.pc = .launched ∨ (m.pc = .wfe ∨ m.pc = .head) ∧
        b.launched.GetWaitMask eb s.exec_state.current_epoch_block ≠ 0) : Tracks net s m
  | clear {s s' : State ι σ} {eb : EpochBlock_ItemTypeDef ι σ} {m : Machine ι σ}
      (b : BlockRun net eb s s')
      (rt : m.rt = b.launched.wait net eb s.exec_state.current_epoch_block)
      (whole : m.triggered_events = b.launched.GetWaitMask eb s.exec_state.current_epoch_block)
      (waits : b.launched.GetWaitMask eb s.exec_state.current_epoch_block ≠ 0)
      (running : m.running = 0) (busy : m.current_epoch_block_started = true)
      (pc : m.pc = .clear) : Tracks net s m
  | finish {s s' : State ι σ} {eb : EpochBlock_ItemTypeDef ι σ} {m : Machine ι σ}
      (b : BlockRun net eb s s')
      (rt : m.rt = b.launched.wait net eb s.exec_state.current_epoch_block) (quiet : m.Quiet)
      (busy : m.current_epoch_block_started = true)
      (pc : ∃ ended, m.pc = .finish ended) : Tracks net s m
  | disarm {s s' : State ι σ} {eb : EpochBlock_ItemTypeDef ι σ} {m : Machine ι σ}
      (b : BlockRun net eb s s') (rt : m.rt = b.finished) (quiet : m.Quiet)
      (busy : m.current_epoch_block_started = true)
      (pc : ∃ ended, m.pc = .disarm s.exec_state.current_epoch_block ended) : Tracks net s m
  | release {s s' : State ι σ} {eb : EpochBlock_ItemTypeDef ι σ} {m : Machine ι σ}
      (b : BlockRun net eb s s') (rt : m.rt = b.disarmed) (quiet : m.Quiet)
      (busy : m.current_epoch_block_started = true)
      (pc : ∃ ended, m.pc = .release s.exec_state.current_epoch_block ended) : Tracks net s m
  | advance {s s' : State ι σ} {eb : EpochBlock_ItemTypeDef ι σ} {m : Machine ι σ}
      (b : BlockRun net eb s s') (rt : m.rt = b.released) (quiet : m.Quiet)
      (busy : m.current_epoch_block_started = true)
      (pc : ∃ ended, m.pc = .advance ended) : Tracks net s m
  | done {s : State ι σ} {m : Machine ι σ} (rt : m.rt = s) (quiet : m.Quiet)
      (idle : m.current_epoch_block_started = false) (done : s.Done net) (pc : m.pc = .done) :
      Tracks net s m

omit [DecidableEq ι] in
theorem given_pos (m : Machine ι σ) : 0 < min (m.wfe_sem + 1) UINT_MAX :=
  Nat.lt_min.mpr ⟨Nat.succ_pos _, by decide⟩

/-- The semaphore may be given at any time. -/
theorem Tracks.give (tracks : Tracks net s m) {n : Nat} (pos : 0 < n) :
    Tracks net s { m with wfe_sem := n } := by
  cases tracks with
  | between rt quiet idle pc => exact .between rt quiet idle pc
  | arm b rt quiet busy pc => exact .arm b rt quiet busy pc
  | launch b rt quiet busy pc => exact .launch b rt quiet busy pc
  | waiting b rt whole disjoint busy _ pc =>
      exact .waiting b rt whole disjoint busy (fun _ _ _ => pos) pc
  | clear b rt whole waits running busy pc => exact .clear b rt whole waits running busy pc
  | finish b rt quiet busy pc => exact .finish b rt quiet busy pc
  | disarm b rt quiet busy pc => exact .disarm b rt quiet busy pc
  | release b rt quiet busy pc => exact .release b rt quiet busy pc
  | advance b rt quiet busy pc => exact .advance b rt quiet busy pc
  | done rt quiet idle done pc => exact .done rt quiet idle done pc

/-- An interrupt keeps the relation, wherever the thread is. -/
theorem Tracks.interrupt (tracks : Tracks net s m) (raised : m.Raised net irqs) :
    Tracks net s (m.interrupt net irqs) := by
  by_cases still : m.running = 0
  · rw [interrupt_of_still still raised]
    exact tracks.give m.given_pos
  · cases tracks with
    | waiting b rt whole disjoint busy wakes pc =>
        rename_i s' eb
        rw [if_neg still] at rt
        have here : m.current = s.exec_state.current_epoch_block := by
          rw [current, rt, b.launched_current]
        have hb : net.block m.current = some eb := by rw [here, b.block_eq]
        obtain ⟨_, eb', hb', _, subset⟩ := id raised
        rw [hb] at hb'
        cases hb'
        have waits : b.launched.GetWaitMask eb s.exec_state.current_epoch_block ≠ 0 := by
          rw [← whole]
          exact fun none => still (BitVec.or_eq_zero_iff.mp none).2
        rw [interrupt_eq raised hb]
        simp only [settle, hb]
        refine .waiting b ?_ (BitSet.finish_whole whole subset) (BitSet.finish_disjoint disjoint)
          busy (fun _ _ _ => m.given_pos) pc
        by_cases last : m.running &&& ~~~(m.reported eb irqs) = 0
        · simp only [last, rt, State.wait, if_neg waits, if_true, ne_eq, still, not_false_eq_true,
            and_self, here]
        · simp only [last, rt, if_false, and_false]
    | between rt quiet => exact absurd quiet.2 still
    | arm b rt quiet => exact absurd quiet.2 still
    | launch b rt quiet => exact absurd quiet.2 still
    | clear b rt whole waits running => exact absurd running still
    | finish b rt quiet => exact absurd quiet.2 still
    | disarm b rt quiet => exact absurd quiet.2 still
    | release b rt quiet => exact absurd quiet.2 still
    | advance b rt quiet => exact absurd quiet.2 still
    | done rt quiet => exact absurd quiet.2 still

/-! ## The credit -/

/-- The steps of the thread until the polling runtime takes its next one, without those in
which the thread wakes for nothing. -/
def effort (m : Machine ι σ) : ℕ :=
  match m.pc with
  | .head => if m.current_epoch_block_started then 5 else 12
  | .last ended => if ended then 13 else 11
  | .arm => 10
  | .launch => 9
  | .launched => 5
  | .wfe => 4
  | .clear => 4
  | .finish _ => 3
  | .disarm _ _ => 2
  | .release _ _ => 1
  | _ => 0

/-- The effort, two steps for each time that the semaphore lets the thread go, and three while
units are at work: two for the semaphore that the last one gives, and one for its interrupt. -/
def credit (m : Machine ι σ) : ℕ :=
  2 * m.wfe_sem + m.effort + if m.running = 0 then 0 else 3

/-- The steps that a step of the polling runtime is worth. -/
abbrev RATE : ℕ := 14

/-- What a step of the thread has to do: it stays with the polling runtime, or goes along
with its next step, and it is paid for. -/
def Goes (net : Program ι σ) (s : State ι σ) (m m' : Machine ι σ) : Prop :=
  ∃ k s', after (State.pollStep net) k s = some s' ∧ Tracks net s' m' ∧
    1 + m'.credit ≤ m.credit + RATE * k

theorem Goes.stay (tracks : Tracks net s m') (paid : 1 + m'.credit ≤ m.credit) :
    Goes net s m m' := ⟨0, s, rfl, tracks, by omega⟩

theorem Goes.along (turn : s.pollStep net = some s') (tracks : Tracks net s' m')
    (paid : 1 + m'.credit ≤ m.credit + 14) : Goes net s m m' :=
  ⟨1, s', by rw [after_one, turn], tracks, paid⟩

/-! ## Steps of the thread -/

/-- Between two blocks, the thread takes a look at the current one. -/
theorem goes_between (complete : s.Completes net) (rt : m.rt = s) (quiet : m.Quiet)
    (idle : m.current_epoch_block_started = false)
    (pc : m.pc = .head ∨ ∃ ended, m.pc = .last ended) (h : m.thread net = some m') :
    Goes net s m m' := by
  obtain ⟨eb, hb⟩ := complete.exists_block
  obtain ⟨r, events, started, sem, running, pc'⟩ := m
  obtain ⟨none, still⟩ := quiet
  dsimp only at rt none still idle pc
  subst rt none still idle
  rcases pc with rfl | ⟨ended, rfl⟩
  · simp only [thread, subject, current, hb, threadAt, atHead, Bool.false_eq_true, false_and,
      if_false] at h
    cases h
    exact .stay (.between rfl ⟨rfl, rfl⟩ rfl (.inr ⟨false, rfl⟩)) (by simp [credit, effort]; omega)
  simp only [thread, subject, current, hb, threadAt, atLast, Bool.false_eq_true, if_false,
    ne_eq, not_true_eq_false, and_false] at h
  cases h
  split_ifs with last saved ended'
  · -- the end of an inserted array
    obtain ⟨s', back⟩ := complete.exists_return hb last saved
    rw [back]
    exact .along (State.pollStep_of_return hb last saved back)
      (.between rfl ⟨rfl, rfl⟩ rfl (.inl rfl)) (by simp [credit, effort, go]; omega)
  · -- the end of the network
    exact .stay (.done rfl ⟨rfl, rfl⟩ rfl ⟨eb, hb, last, by simpa using saved⟩ rfl)
      (by simp [credit, effort]; split_ifs <;> omega)
  · -- the call that ended a block returns
    exact .stay (.between rfl ⟨rfl, rfl⟩ rfl (.inl rfl)) (by simp [credit, effort, ended']; omega)
  · -- the block starts
    obtain ⟨s', ⟨b⟩⟩ := complete.exists_blockRun hb (by simpa using last)
    rw [b.open_eq]
    exact .stay (.arm b rfl ⟨rfl, rfl⟩ rfl rfl) (by simp [credit, effort, go, ended']; omega)

theorem goes_arm (b : BlockRun net eb s s') (rt : m.rt = b.opened) (quiet : m.Quiet)
    (busy : m.current_epoch_block_started = true) (pc : m.pc = .arm)
    (h : m.thread net = some m') : Goes net s m m' := by
  have here : m.current = s.exec_state.current_epoch_block := by
    rw [current, rt, b.opened_current]
  simp only [thread, pc, subject, here, b.block_eq, threadAt, rt, b.arm_eq, go] at h
  cases h
  refine .stay (.launch b rfl quiet busy rfl) ?_
  simp only [credit, effort, pc]
  omega

/-- The units that the block waits for are at work, and none has reported. -/
theorem goes_launch (b : BlockRun net eb s s') (rt : m.rt = b.armed) (quiet : m.Quiet)
    (busy : m.current_epoch_block_started = true) (pc : m.pc = .launch)
    (h : m.thread net = some m') : Goes net s m m' := by
  have here : m.current = s.exec_state.current_epoch_block := by
    rw [current, rt, b.armed_current]
  simp only [thread, pc, subject, here, b.block_eq, threadAt, atLaunch, rt, b.launch_eq] at h
  cases h
  refine .stay (.waiting b ?_ ?_ ?_ busy (fun _ nothing waits => absurd nothing waits) (.inl rfl))
    ?_
  · simp only [State.wait]
    split_ifs <;> rfl
  · simp [quiet.1]
  · simp [quiet.1]
  · simp only [credit, effort, pc]
    split_ifs <;> omega

/-- While the block waits, the thread only looks at the events. -/
theorem goes_waiting (b : BlockRun net eb s s')
    (rt : m.rt = if m.running = 0 then b.launched.wait net eb s.exec_state.current_epoch_block
      else b.launched)
    (whole : m.triggered_events ||| m.running =
      b.launched.GetWaitMask eb s.exec_state.current_epoch_block)
    (disjoint : m.triggered_events &&& m.running = 0)
    (busy : m.current_epoch_block_started = true)
    (wakes : m.pc ≠ .head → m.running = 0 →
      b.launched.GetWaitMask eb s.exec_state.current_epoch_block ≠ 0 → 0 < m.wfe_sem)
    (pc : m.pc = .launched ∨ (m.pc = .wfe ∨ m.pc = .head) ∧
      b.launched.GetWaitMask eb s.exec_state.current_epoch_block ≠ 0)
    (h : m.thread net = some m') : Goes net s m m' := by
  have here : m.current = s.exec_state.current_epoch_block := by
    rw [current, rt]
    split_ifs
    · rw [State.wait]
      split_ifs <;> exact b.launched_current
    · exact b.launched_current
  have mask : m.rt.GetWaitMask eb s.exec_state.current_epoch_block =
      b.launched.GetWaitMask eb s.exec_state.current_epoch_block := by
    rw [rt]
    split_ifs
    · rw [State.wait]
      split_ifs <;> rfl
    · rfl
  rcases pc with pc | ⟨pc | pc, waits⟩
  · simp only [thread, pc, subject, here, b.block_eq, threadAt, atLaunched, mask] at h
    cases h
    split_ifs with nothing
    · rw [nothing] at whole
      obtain ⟨quiet, still⟩ : m.triggered_events = 0 ∧ m.running = 0 :=
        BitVec.or_eq_zero_iff.mp whole
      rw [if_pos still] at rt
      refine .stay (.finish b rt ⟨quiet, still⟩ busy ⟨false, rfl⟩) ?_
      simp only [credit, effort, pc]
      omega
    · refine .stay (.waiting b rt whole disjoint busy (fun _ => wakes (by simp [pc]))
        (.inr ⟨.inl rfl, nothing⟩)) ?_
      simp only [credit, effort, pc]
      omega
  · simp only [thread, pc] at h
    obtain ⟨given, h⟩ := Option.ite_none_left_eq_some.mp h
    cases h
    refine .stay (.waiting b rt whole disjoint busy (fun no => absurd rfl no)
      (.inr ⟨.inr rfl, waits⟩)) ?_
    simp only [credit, effort, pc, busy, if_true]
    omega
  · simp only [thread, pc, subject, here, b.block_eq, threadAt, atHead, mask, busy, true_and,
      ne_eq, waits, not_false_eq_true, if_true] at h
    cases h
    split_ifs with complete
    · have still := (BitSet.covers_iff whole disjoint).mp complete
      rw [if_pos still] at rt
      have reported : m.triggered_events =
          b.launched.GetWaitMask eb s.exec_state.current_epoch_block := by simpa [still] using whole
      refine .stay (.clear b rt reported waits still rfl rfl) ?_
      simp only [credit, effort, pc, busy, if_true]
      omega
    · refine .stay (.waiting b rt whole disjoint rfl (fun _ still => absurd
        ((BitSet.covers_iff whole disjoint).mpr still) complete) (.inr ⟨.inl rfl, waits⟩)) ?_
      simp only [credit, effort, pc, busy, if_true]
      omega

/-- The critical section, which only the owner of the hardware enters. -/
theorem goes_clear (b : BlockRun net eb s s')
    (rt : m.rt = b.launched.wait net eb s.exec_state.current_epoch_block)
    (whole : m.triggered_events = b.launched.GetWaitMask eb s.exec_state.current_epoch_block)
    (waits : b.launched.GetWaitMask eb s.exec_state.current_epoch_block ≠ 0)
    (running : m.running = 0) (busy : m.current_epoch_block_started = true)
    (pc : m.pc = .clear) (h : m.thread net = some m') : Goes net s m m' := by
  rw [State.wait, if_neg waits] at rt
  have here : m.current = s.exec_state.current_epoch_block := by
    rw [current, rt]
    exact b.launched_current
  have owner : m.rt.aton_ip_owner = true := by
    rw [rt]
    exact b.launched_owner waits
  have mask : m.rt.GetWaitMask eb s.exec_state.current_epoch_block = m.triggered_events := by
    rw [rt, whole]
    rfl
  simp only [thread, pc, subject, here, b.block_eq, threadAt, atClear, owner, if_true, mask] at h
  cases h
  refine .stay (.finish b ?_ ⟨by simp, running⟩ busy ⟨true, rfl⟩) ?_
  · rw [State.wait, if_neg waits]
    exact rt
  · simp only [credit, effort, pc]
    omega

theorem goes_finish (b : BlockRun net eb s s')
    (rt : m.rt = b.launched.wait net eb s.exec_state.current_epoch_block) (quiet : m.Quiet)
    (busy : m.current_epoch_block_started = true) (pc : ∃ ended, m.pc = .finish ended)
    (h : m.thread net = some m') : Goes net s m m' := by
  obtain ⟨ended, pc⟩ := pc
  have here : m.current = s.exec_state.current_epoch_block := by
    rw [current, rt, State.wait]
    split_ifs <;> exact b.launched_current
  simp only [thread, pc, subject, here, b.block_eq, threadAt, rt, b.finish_eq, go] at h
  cases h
  refine .stay (.disarm b rfl quiet busy ⟨ended, rfl⟩) ?_
  simp only [credit, effort, pc]
  omega

theorem goes_disarm (b : BlockRun net eb s s') (rt : m.rt = b.finished) (quiet : m.Quiet)
    (busy : m.current_epoch_block_started = true)
    (pc : ∃ ended, m.pc = .disarm s.exec_state.current_epoch_block ended)
    (h : m.thread net = some m') : Goes net s m m' := by
  obtain ⟨ended, pc⟩ := pc
  simp only [thread, pc, subject, b.block_eq, threadAt, rt, b.disarm_eq, go] at h
  cases h
  refine .stay (.release b rfl quiet busy ⟨ended, rfl⟩) ?_
  simp only [credit, effort, pc]
  omega

theorem goes_release (b : BlockRun net eb s s') (rt : m.rt = b.disarmed) (quiet : m.Quiet)
    (busy : m.current_epoch_block_started = true)
    (pc : ∃ ended, m.pc = .release s.exec_state.current_epoch_block ended)
    (h : m.thread net = some m') : Goes net s m m' := by
  obtain ⟨ended, pc⟩ := pc
  simp only [thread, pc, subject, b.block_eq, threadAt, rt, b.release_eq, go] at h
  cases h
  refine .stay (.advance b rfl quiet busy ⟨ended, rfl⟩) ?_
  simp only [credit, effort, pc]
  omega

/-- With the step to the next block, the polling runtime has run this one. -/
theorem goes_advance (b : BlockRun net eb s s') (rt : m.rt = b.released) (quiet : m.Quiet)
    (pc : ∃ ended, m.pc = .advance ended) (h : m.thread net = some m') : Goes net s m m' := by
  obtain ⟨ended, pc⟩ := pc
  simp only [thread, pc, atAdvance, quiet.1, if_true, rt, b.next_eq, go] at h
  cases h
  refine .along (State.pollStep_of_blockRun b) (.between rfl ⟨rfl, quiet.2⟩ rfl ?_) ?_
  · cases ended <;> simp
  · cases ended <;> simp [credit, effort, pc] <;> omega

/-! ## Runs -/

theorem Tracks.thread (tracks : Tracks net s m) (complete : s.Completes net)
    (h : m.thread net = some m') : Goes net s m m' := by
  cases tracks with
  | between rt quiet idle pc => exact goes_between complete rt quiet idle pc h
  | arm b rt quiet busy pc => exact goes_arm b rt quiet busy pc h
  | launch b rt quiet busy pc => exact goes_launch b rt quiet busy pc h
  | waiting b rt whole disjoint busy wakes pc =>
      exact goes_waiting b rt whole disjoint busy wakes pc h
  | clear b rt whole waits running busy pc => exact goes_clear b rt whole waits running busy pc h
  | finish b rt quiet busy pc => exact goes_finish b rt quiet busy pc h
  | disarm b rt quiet busy pc => exact goes_disarm b rt quiet busy pc h
  | release b rt quiet busy pc => exact goes_release b rt quiet busy pc h
  | advance b rt quiet busy pc => exact goes_advance b rt quiet pc h
  | done rt quiet idle done pc => simp [Machine.thread, pc] at h

omit [DecidableEq ι] in
/-- What an interrupt does to the credit. -/
theorem interrupt_credit (raised : m.Raised net irqs) (hb : net.block m.current = some eb) :
    (m.interrupt net irqs).credit = 2 * min (m.wfe_sem + 1) UINT_MAX + m.effort +
      if m.running &&& ~~~(m.reported eb irqs) = 0 then 0 else 3 := by
  rw [interrupt_eq raised hb]
  simp only [credit, effort, settle, hb]

omit [DecidableEq ι] in
theorem credit_interrupt (raised : m.Raised net irqs) :
    (m.interrupt net irqs).credit ≤ m.credit + 2 := by
  obtain ⟨_, eb, hb, _, _⟩ := id raised
  have given : min (m.wfe_sem + 1) UINT_MAX ≤ m.wfe_sem + 1 := Nat.min_le_left _ _
  rw [interrupt_credit raised hb, credit]
  by_cases still : m.running = 0
  · have none : m.running &&& ~~~(m.reported eb irqs) = 0 := by simp [still]
    rw [if_pos none, if_pos still]
    omega
  · rw [if_neg still]
    split_ifs <;> omega

namespace Label

def isThread : Label → Bool
  | .thread => true
  | .irq _ => false

def isIrq : Label → Bool
  | .thread => false
  | .irq _ => true

/-- A step of the thread has a price, and an interrupt pays for two of them. -/
def price (l : Label) : ℕ := if l.isThread then 1 else 0

def yield (l : Label) : ℕ := if l.isIrq then 2 else 0

theorem sum_price (ls : List Label) : (ls.map price).sum = ls.countP isThread := by
  induction ls with
  | nil => rfl
  | cons l ls ih =>
      rw [List.map_cons, List.sum_cons, List.countP_cons, ih, price]
      omega

theorem sum_yield (ls : List Label) : (ls.map yield).sum = 2 * ls.countP isIrq := by
  induction ls with
  | nil => rfl
  | cons l ls ih =>
      rw [List.map_cons, List.sum_cons, List.countP_cons, ih, yield]
      split_ifs <;> omega

end Label

/-- Every run follows the polling runtime, and its steps are paid for. -/
theorem Runs.follow {ls : List Label} {sem : ℕ} (complete : s.Completes net)
    (run : Runs net (start s sem) ls m) :
    ∃ k t, after (State.pollStep net) k s = some t ∧ Tracks net t m ∧ t.Completes net ∧
      (ls.map Label.price).sum + m.credit ≤
        (start s sem).credit + (ls.map Label.yield).sum + RATE * k := by
  have turns : ∀ (a : State ι σ) (m : Machine ι σ) c l m',
      (Tracks net a m ∧ a.Completes net ∧ c = m.credit) → Step net m l m' →
      ∃ k a' c', after (State.pollStep net) k a = some a' ∧
        (Tracks net a' m' ∧ a'.Completes net ∧ c' = m'.credit) ∧
        l.price + c' ≤ c + l.yield + RATE * k := by
    rintro a m c l m' ⟨tracks, complete, rfl⟩ step
    cases step with
    | thread turn =>
        obtain ⟨k, a', moved, tracks', paid⟩ := tracks.thread complete turn
        exact ⟨k, a', _, moved, ⟨tracks', complete.after moved, rfl⟩, by
          simpa [Label.price, Label.yield, Label.isThread, Label.isIrq] using paid⟩
    | irq raised =>
        exact ⟨0, a, _, rfl, ⟨tracks.interrupt raised, complete, rfl⟩, by
          simpa [Label.price, Label.yield, Label.isThread, Label.isIrq] using
            credit_interrupt raised⟩
  obtain ⟨k, t, c, moved, ⟨tracks, complete', rfl⟩, paid⟩ := LabelledRun.simulated turns run
    ⟨Tracks.between rfl ⟨rfl, rfl⟩ rfl (.inl rfl), complete, rfl⟩
  exact ⟨k, t, moved, tracks, complete', paid⟩

end Machine
end PeopleDetection.Aton
