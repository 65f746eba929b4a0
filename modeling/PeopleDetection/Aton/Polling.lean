import PeopleDetection.Aton.Parts
import PeopleDetection.Library.Simulation

/-!
# The runtime that polls

An inference that polls runs one block after the other. Between two blocks the runtime
owns the hardware exactly while an inserted array runs. It then has the place saved behind
which the array of the network goes on.
-/

namespace PeopleDetection.Aton

open Library

variable {ι σ : Type} {net : Program ι σ} {eb : EpochBlock_ItemTypeDef ι σ}
variable {p : EpochPtr ι} {s s' : State ι σ}

/-- A block that runs from its start to its end, with the states between its parts. -/
structure BlockRun [DecidableEq ι] (net : Program ι σ) (eb : EpochBlock_ItemTypeDef ι σ)
    (s s' : State ι σ) where
  opened : State ι σ
  armed : State ι σ
  launched : State ι σ
  finished : State ι σ
  disarmed : State ι σ
  released : State ι σ
  block_eq : net.block s.exec_state.current_epoch_block = some eb
  notLast : EpochBlock_IsLastEpochBlock eb = false
  open_eq : s.openBlock eb s.exec_state.current_epoch_block = some opened
  arm_eq : opened.armBlock eb s.exec_state.current_epoch_block = some armed
  launch_eq : armed.launchBlock eb s.exec_state.current_epoch_block = some launched
  finish_eq : (launched.wait net eb s.exec_state.current_epoch_block).finishBlock net eb
    s.exec_state.current_epoch_block = some finished
  disarm_eq : finished.disarmBlock eb = some disarmed
  release_eq : disarmed.releaseBlock eb s.exec_state.current_epoch_block = some released
  next_eq : released.DetermineNextEpochBlock = some s'

/-- The calls of the callback for a block. -/
def callbacksOf (p : EpochPtr ι) : List (CallbackCall ι) :=
  [(.PRE_START, some p), (.POST_START, some p), (.PRE_END, some p), (.POST_END, some p)]

section Blocks

variable [DecidableEq ι]

namespace BlockRun

variable (b : BlockRun net eb s s')

theorem opened_current :
    b.opened.exec_state.current_epoch_block = s.exec_state.current_epoch_block := by
  rw [State.openBlock_exec b.open_eq]

theorem armed_current :
    b.armed.exec_state.current_epoch_block = s.exec_state.current_epoch_block :=
  (congrArg _ (State.armBlock_same b.arm_eq).1).trans b.opened_current

theorem launched_current :
    b.launched.exec_state.current_epoch_block = s.exec_state.current_epoch_block :=
  (State.launchBlock_same b.launch_eq).1.trans b.armed_current

/-! The callback is called four times for a block. -/

theorem launched_trace : b.launched.trace = s.trace ++
    [(.PRE_START, some s.exec_state.current_epoch_block),
      (.POST_START, some s.exec_state.current_epoch_block)] := by
  rw [(State.launchBlock_same b.launch_eq).2, (State.armBlock_same b.arm_eq).2,
    State.openBlock_trace b.open_eq, List.append_assoc]
  rfl

theorem finished_trace : b.finished.trace = s.trace ++
    [(.PRE_START, some s.exec_state.current_epoch_block),
      (.POST_START, some s.exec_state.current_epoch_block),
      (.PRE_END, some s.exec_state.current_epoch_block)] := by
  rw [State.finishBlock_trace b.finish_eq, State.wait_trace, b.launched_trace, List.append_assoc]
  rfl

theorem released_trace :
    b.released.trace = s.trace ++ callbacksOf s.exec_state.current_epoch_block := by
  rw [State.releaseBlock_trace b.release_eq, State.disarmBlock_trace b.disarm_eq,
    b.finished_trace, List.append_assoc]
  rfl

/-- Who waits for the hardware owns it. -/
theorem launched_owner
    (waits : b.launched.GetWaitMask eb s.exec_state.current_epoch_block ≠ 0) :
    b.launched.aton_ip_owner = true := by
  rw [(State.launchBlock_called b.launch_eq).owner]
  apply State.armBlock_owner b.arm_eq
  by_contra none
  simp only [not_or, Bool.not_eq_true] at none
  obtain ⟨blob, hw, internal⟩ := none
  apply waits
  have member := Program.block_mem b.block_eq
  rw [State.GetWaitMask, blob, State.waitMask]
  cases place : s.exec_state.current_epoch_block.list with
  | network =>
      rw [place] at member
      exact net.unarmed eb member blob hw
  | lib i =>
      rw [place] at member
      rw [(net.internal i eb member b.notLast).1] at internal
      cases internal

end BlockRun

namespace State

/-! ## Steps -/

/-- What a step does: it goes back to the array that inserted the one that ends, or it runs
a block. -/
theorem pollStep_cases (h : s.pollStep net = some s') :
    ∃ eb, net.block s.exec_state.current_epoch_block = some eb ∧
      (EpochBlock_IsLastEpochBlock eb = true ∧
          s.exec_state.saved_current_epoch_block.isSome = true ∧ s.returnFromLib net = some s' ∨
        Nonempty (BlockRun net eb s s')) := by
  rw [pollStep, RunEpochBlock_polling] at h
  cases hb : net.block s.exec_state.current_epoch_block with
  | none => simp [hb] at h
  | some eb =>
      refine ⟨eb, rfl, ?_⟩
      simp only [hb, Option.bind_eq_bind, Option.bind_some] at h
      by_cases last : EpochBlock_IsLastEpochBlock eb = true
      · rw [if_pos last] at h
        by_cases saved : s.exec_state.saved_current_epoch_block.isSome = true
        · rw [if_pos saved] at h
          cases hr : s.returnFromLib net with
          | none => simp [hr] at h
          | some t =>
              simp only [hr, Option.bind_some] at h
              exact .inl ⟨last, saved, h⟩
        · simp [saved] at h
      · rw [if_neg last] at h
        cases hr : s.runBlock net eb s.exec_state.current_epoch_block with
        | none => simp [hr] at h
        | some t =>
            simp only [hr, Option.bind_some, Option.some.injEq] at h
            subst h
            simp only [runBlock, Option.bind_eq_bind, Option.bind_eq_some_iff] at hr
            obtain ⟨opened, ho, armed, ha, launched, hl, finished, hf, disarmed, hd, released, hr,
              hn⟩ := hr
            exact .inr ⟨⟨opened, armed, launched, finished, disarmed, released, hb, by simpa using
              last, ho, ha, hl, hf, hd, hr, hn⟩⟩

theorem pollStep_of_return (hb : net.block s.exec_state.current_epoch_block = some eb)
    (last : EpochBlock_IsLastEpochBlock eb = true)
    (saved : s.exec_state.saved_current_epoch_block.isSome = true)
    (h : s.returnFromLib net = some s') : s.pollStep net = some s' := by
  simp [pollStep, RunEpochBlock_polling, hb, last, saved, h]

theorem pollStep_of_blockRun (b : BlockRun net eb s s') : s.pollStep net = some s' := by
  have run : s.runBlock net eb s.exec_state.current_epoch_block = some s' := by
    simp [runBlock, b.open_eq, b.arm_eq, b.launch_eq, b.finish_eq, b.disarm_eq, b.release_eq,
      b.next_eq]
  simp [pollStep, RunEpochBlock_polling, b.block_eq, b.notLast, run]

theorem Done.pollStep (done : s.Done net) : s.pollStep net = none := by
  obtain ⟨eb, hb, last, saved⟩ := done
  simp [State.pollStep, RunEpochBlock_polling, hb, last, saved]

/-! ## From block to block -/

/-- An array of the library that nobody owns the hardware for. -/
def Orphaned (s : State ι σ) : Prop :=
  s.aton_ip_owner = false ∧ s.exec_state.saved_current_epoch_block.isSome = true ∧
    ∃ i, s.exec_state.current_epoch_block.list = .lib i

/-- A block of the network that only hardware runs does not insert an array: the array would
fail an assertion. -/
theorem Orphaned.stuck (orphaned : Orphaned s) : s.pollStep net = none := by
  obtain ⟨unowned, _, i, list⟩ := orphaned
  by_contra step
  obtain ⟨s', h⟩ := Option.ne_none_iff_exists'.mp step
  obtain ⟨eb, hb, ⟨_, _, back⟩ | ⟨⟨run⟩⟩⟩ := pollStep_cases h
  · simp only [returnFromLib, RetFromLibEpochBlockArray, Option.bind_eq_bind,
      Option.bind_eq_some_iff, Option.ite_none_right_eq_some, unowned] at back
    grind
  · have member := Program.block_mem run.block_eq
    rw [list] at member
    obtain ⟨internal, hw, hybrid⟩ := net.internal i eb member run.notLast
    have owned := armBlock_owner run.arm_eq (.inr (.inr internal))
    rw [(armBlock_called run.arm_eq).owner, openBlock_owner run.open_eq, hw, hybrid, unowned]
      at owned
    cases owned

end State

/-- A block leads from one settled state to another, or it leaves an orphan. -/
theorem BlockRun.settled (b : BlockRun net eb s s') (settled : s.Settled) :
    s'.Settled ∨ s'.Orphaned := by
  have member := Program.block_mem b.block_eq
  have opened := State.openBlock_exec b.open_eq
  have placed : b.opened.Placed := ⟨by rw [opened]; exact settled.first, by
    rw [opened]; exact settled.nested⟩
  have launched : b.opened.Called b.launched :=
    (State.armBlock_called b.arm_eq).trans (State.launchBlock_called b.launch_eq)
  have waited : b.opened.Called (b.launched.wait net eb s.exec_state.current_epoch_block) :=
    launched.trans State.wait_called
  have called := (waited.trans (State.finishBlock_called (waited.placed placed) b.finish_eq)).trans
    (State.disarmBlock_called b.disarm_eq)
  obtain ⟨exec, mask, owner, cleared⟩ := State.releaseBlock_spec b.release_eq
  have inside : b.released.Placed := ⟨by rw [exec]; exact (called.placed placed).first, by
    rw [exec]; exact (called.placed placed).nested⟩
  cases next : b.released.exec_state.next_epoch_block with
  | some i =>
      obtain ⟨there, clean, saved, list, same⟩ := State.nested_of_insert next inside b.next_eq
      cases owned : b.released.aton_ip_owner with
      | true => exact .inl ⟨there, clean, by rw [same, owned, saved], fun no => by simp_all⟩
      | false => exact .inr ⟨same.trans owned, saved, i, list⟩
  | none =>
      have clean : b.disarmed.exec_state.next_epoch_block = none := by rw [← exec, next]
      suffices h : b.released.aton_ip_owner =
            b.released.exec_state.saved_current_epoch_block.isSome ∧
          (b.released.aton_ip_owner = false → b.released.current_wait_mask = 0) from
        .inl (State.settled_of_advance inside next h.1 h.2 b.next_eq)
      rw [owner, mask, exec]
      rcases settled.nested with ⟨saved, list⟩ | ⟨q, i, saved, _, _, list, _⟩
      · -- a block of the network
        have saved' : b.disarmed.exec_state.saved_current_epoch_block = none := by
          rcases called.saved with same | none
          · rw [same, opened, saved]
          · exact none
        cases releases : b.disarmed.releases eb with
        | true => exact ⟨by simp [saved'], fun _ => cleared releases⟩
        | false =>
            simp only [State.releases, saved', clean, Option.isNone_none, Bool.and_true,
              Bool.or_eq_false_iff] at releases
            have unowned : b.opened.aton_ip_owner = false := by
              rw [State.openBlock_owner b.open_eq, releases.1, releases.2.1, settled.owner, saved]
              rfl
            obtain ⟨_, same⟩ := called.unowned unowned
            refine ⟨by rw [called.owner, unowned, saved']; rfl, fun _ => ?_⟩
            rw [same, State.openBlock_mask b.open_eq]
            exact settled.mask (by rw [settled.owner, saved]; rfl)
      · -- a block of the library
        rw [list] at member
        obtain ⟨internal, hw, hybrid⟩ := net.internal i eb member b.notLast
        have owned : b.disarmed.aton_ip_owner = true := by
          rw [called.owner, State.openBlock_owner b.open_eq, hw, hybrid, settled.owner, saved]
          rfl
        cases releases : b.disarmed.releases eb with
        | true =>
            simp only [State.releases, internal, hw, hybrid, clean, Bool.false_or, Bool.true_and,
              Option.isNone_none, Bool.and_true, Option.isNone_iff_eq_none] at releases
            exact ⟨by simp [releases], fun _ => cleared (by simp [State.releases, internal, clean,
              releases])⟩
        | false =>
            simp only [State.releases, internal, hw, hybrid, clean, Bool.false_or, Bool.true_and,
              Option.isNone_none, Bool.and_true, Option.isNone_eq_false_iff] at releases
            exact ⟨by simp [owned, releases], fun no => by simp [owned] at no⟩

/-! ## Inferences that complete -/

namespace State

/-- Polling, the inference gets done. -/
def Completes (net : Program ι σ) (s : State ι σ) : Prop :=
  ∃ n t, after (pollStep net) n s = some t ∧ t.Done net

/-- An orphaned array does not complete. -/
theorem Orphaned.not_completes (orphaned : Orphaned s) : ¬ Completes net s := by
  rintro ⟨n, t, run, done⟩
  cases n with
  | zero =>
      cases run
      obtain ⟨_, _, _, saved⟩ := done
      obtain ⟨_, some, _⟩ := orphaned
      rw [saved] at some
      cases some
  | succ n =>
      rw [after, orphaned.stuck] at run
      cases run

theorem Completes.after {k : ℕ} (complete : Completes net s)
    (h : after (pollStep net) k s = some s') : Completes net s' := by
  obtain ⟨n, t, run, done⟩ := complete
  obtain ⟨_, rest⟩ := after_split run done.pollStep h
  exact ⟨n - k, t, rest, done⟩

theorem Completes.step (complete : Completes net s) (h : s.pollStep net = some s') :
    Completes net s' :=
  complete.after (k := 1) (by rw [after_one, h])

/-- In front of a block, an inference that completes has a block there. -/
theorem Completes.exists_block (complete : Completes net s) :
    ∃ eb, net.block s.exec_state.current_epoch_block = some eb := by
  obtain ⟨n, t, run, done⟩ := complete
  cases n with
  | zero =>
      cases run
      obtain ⟨eb, hb, _⟩ := done
      exact ⟨eb, hb⟩
  | succ n =>
      obtain ⟨s', h, _⟩ := Option.bind_eq_some_iff.mp run
      obtain ⟨eb, hb, _⟩ := pollStep_cases h
      exact ⟨eb, hb⟩

/-- An inference that completes has a next step until it is done. -/
theorem Completes.exists_step (complete : Completes net s) (more : ¬ s.Done net) :
    ∃ s', s.pollStep net = some s' := by
  obtain ⟨n, t, run, done⟩ := complete
  have ne : s ≠ t := fun same => more (same ▸ done)
  obtain ⟨_, s', _, h, _⟩ := after_next run ne
  exact ⟨s', h⟩

theorem Completes.exists_return (complete : Completes net s)
    (hb : net.block s.exec_state.current_epoch_block = some eb)
    (last : EpochBlock_IsLastEpochBlock eb = true)
    (saved : s.exec_state.saved_current_epoch_block.isSome = true) :
    ∃ s', s.returnFromLib net = some s' := by
  obtain ⟨s', h⟩ := complete.exists_step fun ⟨_, _, _, unsaved⟩ => by
    simp [unsaved] at saved
  obtain ⟨eb', hb', ⟨_, _, back⟩ | ⟨⟨b⟩⟩⟩ := pollStep_cases h
  · exact ⟨s', back⟩
  · have same := b.block_eq
    rw [hb] at same
    cases same
    rw [b.notLast] at last
    cases last

theorem Completes.exists_blockRun (complete : Completes net s)
    (hb : net.block s.exec_state.current_epoch_block = some eb)
    (more : EpochBlock_IsLastEpochBlock eb = false) :
    ∃ s', Nonempty (BlockRun net eb s s') := by
  obtain ⟨s', h⟩ := complete.exists_step fun ⟨eb', hb', last, _⟩ => by simp_all
  obtain ⟨eb', hb', hc⟩ := pollStep_cases h
  rw [hb] at hb'
  cases hb'
  obtain ⟨last, _, _⟩ | b := hc
  · rw [more] at last
    cases last
  · exact ⟨s', b⟩

/-- The blocks that polling runs in its next steps. The end of an inserted array is not run. -/
def visited (net : Program ι σ) : ℕ → State ι σ → List (EpochPtr ι)
  | 0, _ => []
  | k + 1, s =>
      match s.pollStep net with
      | none => []
      | some t =>
          if (net.block s.exec_state.current_epoch_block).any EpochBlock_IsLastEpochBlock then
            visited net k t
          else s.exec_state.current_epoch_block :: visited net k t

/-- The callback is called for the blocks that polling runs, and for no others. -/
theorem after_trace {k : ℕ} (h : after (pollStep net) k s = some s') :
    s'.trace = s.trace ++ (visited net k s).flatMap callbacksOf := by
  induction k generalizing s with
  | zero =>
      cases h
      exact (List.append_nil _).symm
  | succ k ih =>
      obtain ⟨t, turn, rest⟩ := Option.bind_eq_some_iff.mp h
      rw [ih rest]
      obtain ⟨eb, hb, ⟨last, _, back⟩ | ⟨⟨b⟩⟩⟩ := pollStep_cases turn
      · have passed : visited net (k + 1) s = visited net k t := by
          simp only [visited, turn, hb, Option.any_some, last, if_true]
        rw [passed, returnFromLib_trace back]
      · have run : visited net (k + 1) s =
            s.exec_state.current_epoch_block :: visited net k t := by
          simp [visited, turn, hb, b.notLast]
        rw [run, DetermineNextEpochBlock_trace b.next_eq, b.released_trace, List.append_assoc,
          List.flatMap_cons]

theorem Settled.step (settled : s.Settled) (complete : Completes net s)
    (h : s.pollStep net = some s') : s'.Settled := by
  obtain ⟨eb, _, ⟨_, _, back⟩ | ⟨⟨b⟩⟩⟩ := pollStep_cases h
  · exact returnFromLib_settled settled back
  · rcases b.settled settled with settled' | orphaned
    · exact settled'
    · exact absurd (complete.step h) orphaned.not_completes

theorem Settled.after {k : ℕ} (settled : s.Settled) (complete : Completes net s)
    (h : after (pollStep net) k s = some s') : s'.Settled := by
  induction k generalizing s with
  | zero =>
      cases h
      exact settled
  | succ k ih =>
      obtain ⟨t, turn, rest⟩ := Option.bind_eq_some_iff.mp h
      exact ih (settled.step complete turn) (complete.step turn) rest

/-! ## The end -/

omit [DecidableEq ι] in
theorem Settled.unowned (settled : s.Settled) (done : s.Done net) : s.aton_ip_owner = false := by
  obtain ⟨_, _, _, unsaved⟩ := done
  rw [settled.owner, unsaved]
  rfl

omit [DecidableEq ι] in
theorem Settled.reset (settled : s.Settled) (done : s.Done net) :
    ∃ s', s.Reset_Network = some s' ∧ s'.Settled := by
  have free := settled.unowned done
  refine ⟨(s.callback none .NN_DeInit).Init_Network, ?_, ⟨rfl, .inl ⟨rfl, rfl⟩⟩, rfl, free,
    settled.mask⟩
  simp [Reset_Network, DeInit_Network, callback, free]

end State
end Blocks
end PeopleDetection.Aton
