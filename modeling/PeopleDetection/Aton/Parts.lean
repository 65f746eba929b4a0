import PeopleDetection.Aton.Blocks
import PeopleDetection.Library.Loops

/-!
# The parts of a block

What each part of a block changes: the place in the arrays, the owner of the hardware, the
wait mask and the calls of the callback. The calls that a routine makes move the place
only inside the array that runs, or from an inserted array back to that of the network.
-/

namespace PeopleDetection.Aton

open Library

variable {ι σ : Type} {net : Program ι σ} {eb : EpochBlock_ItemTypeDef ι σ}
variable {p : EpochPtr ι} {s s' s'' : State ι σ}

theorem Program.block_mem (h : net.block p = some eb) : eb ∈ net.items p.list := by
  rw [Program.block] at h
  split at h
  · exact List.mem_of_getElem? h
  · cases h

namespace State

/-! ## What the parts of a block change -/

theorem SetWaitMask_spec {mask : BitVec 32} (h : s.SetWaitMask mask = some s') :
    s.aton_ip_owner = true ∧ s' = { s with current_wait_mask := mask } := by
  rw [SetWaitMask] at h
  split at h
  · exact ⟨‹_›, (Option.some.inj h).symm⟩
  · cases h

theorem set_aton_owner_spec (h : s.set_aton_owner = some s') :
    s.aton_ip_owner = false ∧ s.current_wait_mask = 0 ∧ s' = { s with aton_ip_owner := true } := by
  rw [set_aton_owner] at h
  split at h
  · exact ⟨‹_ ∧ _›.1, ‹_ ∧ _›.2, (Option.some.inj h).symm⟩
  · cases h

theorem clear_aton_owner_spec (h : s.clear_aton_owner = some s') :
    s.aton_ip_owner = true ∧ s.current_wait_mask = 0 ∧ s' = { s with aton_ip_owner := false } := by
  rw [clear_aton_owner] at h
  split at h
  · exact ⟨‹_ ∧ _›.1, ‹_ ∧ _›.2, (Option.some.inj h).symm⟩
  · cases h

theorem checkController_spec (h : s.checkController eb = some s') : s' = s := by
  rw [checkController] at h
  split at h
  · exact (Option.some.inj h).symm
  · cases h

theorem openBlock_exec (h : s.openBlock eb p = some s') :
    s'.exec_state = s.exec_state := by
  rw [openBlock] at h
  split at h
  · split at h
    · obtain ⟨_, _, rfl⟩ := set_aton_owner_spec h
      rfl
    · cases h
      rfl
  · cases h

theorem openBlock_mask (h : s.openBlock eb p = some s') :
    s'.current_wait_mask = s.current_wait_mask := by
  rw [openBlock] at h
  split at h
  · split at h
    · obtain ⟨_, _, rfl⟩ := set_aton_owner_spec h
      rfl
    · cases h
      rfl
  · cases h

theorem openBlock_owner (h : s.openBlock eb p = some s') :
    s'.aton_ip_owner =
      (EpochBlock_IsEpochPureHW eb || EpochBlock_IsEpochHybrid eb || s.aton_ip_owner) := by
  rw [openBlock] at h
  split at h
  · split at h
    · obtain ⟨_, _, rfl⟩ := set_aton_owner_spec h
      simp_all
    · cases h
      simp_all [callback]
  · cases h

/-- A block that sets the wait mask belongs to the owner of the hardware. -/
theorem armBlock_owner (h : s.armBlock eb p = some s')
    (sets : EpochBlock_IsEpochBlob eb = true ∨ EpochBlock_IsEpochPureHW eb = true ∨
      EpochBlock_IsEpochInternal eb = true) : s'.aton_ip_owner = true := by
  rw [armBlock] at h
  split_ifs at h with blob other
  · obtain ⟨owner, rfl⟩ := SetWaitMask_spec h
    exact owner
  · simp_all
  · obtain ⟨owner, rfl⟩ := SetWaitMask_spec h
    exact owner

/-! ## The place in the arrays -/

/-- The place in the arrays. While an array of the library runs, the place in the array of
the network is saved, and no further array waits to be inserted. -/
structure Placed (s : State ι σ) : Prop where
  first : s.exec_state.first_epoch_block = s.exec_state.current_epoch_block.list
  nested : s.exec_state.saved_current_epoch_block = none ∧
      s.exec_state.current_epoch_block.list = .network ∨
    ∃ q i, s.exec_state.saved_current_epoch_block = some q ∧
      s.exec_state.saved_first_epoch_block = some .network ∧ q.list = .network ∧
      s.exec_state.current_epoch_block.list = .lib i ∧ s.exec_state.next_epoch_block = none

/-- Between two blocks, the runtime owns the hardware exactly while an array of the library
runs. -/
structure Settled (s : State ι σ) : Prop extends Placed s where
  next : s.exec_state.next_epoch_block = none
  owner : s.aton_ip_owner = s.exec_state.saved_current_epoch_block.isSome
  mask : s.aton_ip_owner = false → s.current_wait_mask = 0

/-- What the calls of a block preserve. -/
structure Called (s s' : State ι σ) : Prop where
  placed : Placed s → Placed s'
  owner : s'.aton_ip_owner = s.aton_ip_owner
  saved : s'.exec_state.saved_current_epoch_block = s.exec_state.saved_current_epoch_block ∨
    s'.exec_state.saved_current_epoch_block = none
  unowned : s.aton_ip_owner = false →
    s'.exec_state.next_epoch_block = s.exec_state.next_epoch_block ∧
      s'.current_wait_mask = s.current_wait_mask

theorem Called.refl (s : State ι σ) : Called s s := ⟨id, rfl, .inl rfl, fun _ => ⟨rfl, rfl⟩⟩

theorem Called.trans (h : Called s s') (h' : Called s' s'') : Called s s'' where
  placed := h'.placed ∘ h.placed
  owner := h'.owner.trans h.owner
  saved := by
    rcases h'.saved with saved | none
    · rw [saved]
      exact h.saved
    · exact .inr none
  unowned none := by
    obtain ⟨next, mask⟩ := h.unowned none
    obtain ⟨next', mask'⟩ := h'.unowned (h.owner.trans none)
    exact ⟨next'.trans next, mask'.trans mask⟩

/-- A change of the memory, the masks or the trace. -/
theorem Called.of_memory (exec : s'.exec_state = s.exec_state)
    (owner : s'.aton_ip_owner = s.aton_ip_owner)
    (mask : s'.current_wait_mask = s.current_wait_mask) : Called s s' where
  placed h := ⟨by rw [exec]; exact h.first, by rw [exec]; exact h.nested⟩
  owner := owner
  saved := .inl (by rw [exec])
  unowned _ := ⟨by rw [exec], mask⟩

theorem SetWaitMask_called {mask : BitVec 32} (h : s.SetWaitMask mask = some s') :
    Called s s' := by
  obtain ⟨owner, rfl⟩ := SetWaitMask_spec h
  exact ⟨fun placed => ⟨placed.first, placed.nested⟩, rfl, .inl rfl, fun none => by simp_all⟩

theorem Insert_called {i : ι} (h : s.Insert_LibEpochBlockArray i = some s') : Called s s' := by
  rw [Insert_LibEpochBlockArray] at h
  split at h
  · rename_i ok
    obtain ⟨owner, _, saved⟩ := ok
    cases h
    refine ⟨fun placed => ⟨placed.first, ?_⟩, rfl, .inl rfl, fun none => by simp_all⟩
    rcases placed.nested with here | ⟨q, j, there, _⟩
    · exact .inl here
    · rw [saved] at there
      cases there
  · cases h

theorem SetCurrentEpochBlock_called {index : Int} (owned : s.aton_ip_owner = true)
    (h : s.SetCurrentEpochBlock net index = some s') : Called s s' := by
  rw [SetCurrentEpochBlock] at h
  split at h
  · cases h
    refine ⟨fun placed => ⟨rfl, ?_⟩, rfl, .inl rfl, fun none => by simp_all⟩
    simpa only [placed.first] using placed.nested
  · cases h

/-- The end of an array of the library. -/
theorem RetFromLib_spec {unlock : Bool} (placed : Placed s)
    (h : s.RetFromLibEpochBlockArray net unlock = some s') :
    Placed s' ∧ s.aton_ip_owner = true ∧ s'.aton_ip_owner = !unlock ∧
      s'.exec_state.saved_current_epoch_block = none ∧ s'.exec_state.next_epoch_block = none ∧
      (unlock = true → s'.current_wait_mask = 0) := by
  simp only [RetFromLibEpochBlockArray, Option.bind_eq_bind, Option.bind_eq_some_iff,
    Option.ite_none_right_eq_some, Option.map_eq_some_iff] at h
  obtain ⟨saved, hs, eb, _, hybrid, _, ⟨owned, _⟩, t, ht, rfl⟩ := h
  have back : s.exec_state.saved_first_epoch_block = some .network ∧ saved.list = .network := by
    rcases placed.nested with ⟨none, _⟩ | ⟨q, i, there, first, list, _⟩
    · rw [hs] at none
      cases none
    · rw [hs] at there
      cases there
      exact ⟨first, list⟩
  have same : t.exec_state = s.exec_state ∧ t.aton_ip_owner = !unlock ∧
      (unlock = true → t.current_wait_mask = 0) := by
    cases unlock with
    | true =>
        obtain ⟨_, mask, rfl⟩ := clear_aton_owner_spec ht
        exact ⟨rfl, rfl, fun _ => mask⟩
    | false =>
        cases ht
        exact ⟨rfl, owned, fun no => by cases no⟩
  obtain ⟨exec, owner, mask⟩ := same
  refine ⟨⟨?_, .inl ⟨rfl, back.2⟩⟩, owned, owner, rfl, rfl, mask⟩
  change (t.exec_state.saved_first_epoch_block.getD _) = saved.list
  rw [exec, back.1, back.2]
  rfl

theorem armBlock_called (h : s.armBlock eb p = some s') : Called s s' := by
  rw [armBlock] at h
  split_ifs at h
  · exact SetWaitMask_called h
  · cases h
    exact .refl s
  · exact SetWaitMask_called h

theorem wait_called : Called s (s.wait net eb p) := by
  rw [wait]
  split
  · exact .refl s
  · exact .of_memory rfl rfl rfl

theorem disarmBlock_called (h : s.disarmBlock eb = some s') : Called s s' := by
  rw [disarmBlock] at h
  split_ifs at h
  · exact SetWaitMask_called h
  · cases h
    exact .refl s

theorem releaseBlock_spec (h : s.releaseBlock eb p = some s') :
    s'.exec_state = s.exec_state ∧ s'.current_wait_mask = s.current_wait_mask ∧
      s'.aton_ip_owner = (s.aton_ip_owner && !s.releases eb) ∧
      (s.releases eb = true → s.current_wait_mask = 0) := by
  obtain ⟨t, ht, h⟩ := Option.bind_eq_some_iff.mp h
  obtain ⟨_, h⟩ := Option.ite_none_right_eq_some.mp h
  cases h
  split at ht
  · obtain ⟨_, mask, rfl⟩ := clear_aton_owner_spec ht
    exact ⟨rfl, rfl, by simp_all [callback], fun _ => mask⟩
  · cases ht
    exact ⟨rfl, rfl, by simp_all [callback], fun yes => by simp_all⟩

/-! ## Between two blocks -/

theorem settled_of_advance {t : State ι σ} (placed : Placed t)
    (next : t.exec_state.next_epoch_block = none)
    (owner : t.aton_ip_owner = t.exec_state.saved_current_epoch_block.isSome)
    (mask : t.aton_ip_owner = false → t.current_wait_mask = 0)
    (h : t.DetermineNextEpochBlock = some s') : Settled s' := by
  rw [DetermineNextEpochBlock, next] at h
  cases h
  exact ⟨⟨placed.first, placed.nested⟩, next, owner, mask⟩

/-- An array of the library begins. -/
theorem nested_of_insert {t : State ι σ} {i : ι} (next : t.exec_state.next_epoch_block = some i)
    (placed : Placed t) (h : t.DetermineNextEpochBlock = some s') :
    Placed s' ∧ s'.exec_state.next_epoch_block = none ∧
      s'.exec_state.saved_current_epoch_block.isSome = true ∧
      s'.exec_state.current_epoch_block.list = .lib i ∧ s'.aton_ip_owner = t.aton_ip_owner := by
  rw [DetermineNextEpochBlock, next] at h
  obtain ⟨saved, h⟩ := Option.ite_none_right_eq_some.mp h
  cases h
  refine ⟨⟨rfl, .inr ⟨_, i, rfl, ?_, ?_, rfl, rfl⟩⟩, rfl, rfl, rfl, rfl⟩
  · rcases placed.nested with ⟨_, list⟩ | ⟨q, j, there, _⟩
    · rw [placed.first, list]
    · rw [saved] at there
      cases there
  · rcases placed.nested with ⟨_, list⟩ | ⟨q, j, there, _⟩
    · exact list
    · rw [saved] at there
      cases there

theorem returnFromLib_settled (settled : s.Settled) (h : s.returnFromLib net = some s') :
    s'.Settled := by
  obtain ⟨t, ht, h⟩ := Option.bind_eq_some_iff.mp h
  obtain ⟨placed, _, owner, saved, next, mask⟩ := RetFromLib_spec settled.toPlaced ht
  cases h
  refine ⟨⟨placed.first, placed.nested⟩, next, ?_, fun _ => mask rfl⟩
  change t.aton_ip_owner = t.exec_state.saved_current_epoch_block.isSome
  rw [owner, saved]
  rfl

/-! ## Routines -/

section Routines

variable [DecidableEq ι]

theorem startCall_called {c : StartCall ι} (h : s.startCall c = some s') : Called s s' := by
  cases c with
  | insert i => exact Insert_called h
  | assignWaitMask i index mask =>
      cases h
      exact .of_memory rfl rfl rfl
  | setWaitMask i index mask =>
      have assigned : Called s (s.assignWaitMask i index mask) := .of_memory rfl rfl rfl
      exact assigned.trans (SetWaitMask_called h)

theorem endCall_called {c : EndCall ι} (placed : Placed s) (h : s.endCall net c = some s') :
    Called s s' := by
  cases c with
  | start call => exact startCall_called h
  | inc n =>
      rw [endCall, IncCurrEpochBlock] at h
      split at h
      · exact SetCurrentEpochBlock_called ‹_› h
      · cases h
  | dec n =>
      rw [endCall, DecCurrEpochBlock] at h
      split at h
      · exact SetCurrentEpochBlock_called ‹_ ∧ _›.1 h
      · cases h
  | ret =>
      obtain ⟨placed', owned, owner, saved, _, _⟩ := RetFromLib_spec placed h
      exact ⟨fun _ => placed', owner.trans owned.symm, .inr saved, fun none => by simp_all⟩

theorem runStart_called {f : Option (Routine ι σ (StartCall ι))} (h : s.runStart f = some s') :
    Called s s' := by
  cases f with
  | none =>
      cases h
      exact .refl s
  | some f =>
      rw [runStart] at h
      have stored : Called s { s with data := (f s.masks s.data).1 } := .of_memory rfl rfl rfl
      exact foldlM_inv (fun _ _ _ called turn => called.trans (startCall_called turn)) stored h

theorem runEnd_called {f : Option (Routine ι σ (EndCall ι))} (placed : Placed s)
    (h : s.runEnd net f = some s') : Called s s' := by
  cases f with
  | none =>
      cases h
      exact .refl s
  | some f =>
      rw [runEnd] at h
      have stored : Called s { s with data := (f s.masks s.data).1 } := .of_memory rfl rfl rfl
      exact foldlM_inv (fun _ _ _ called turn => called.trans
        (endCall_called (called.placed placed) turn)) stored h

theorem launchBlock_called (h : s.launchBlock eb p = some s') : Called s s' := by
  simp only [launchBlock, Option.bind_eq_bind, Option.bind_eq_some_iff] at h
  obtain ⟨t, ht, u, hu, h⟩ := h
  obtain rfl := checkController_spec hu
  cases h
  exact (runStart_called ht).trans (.of_memory rfl rfl rfl)

theorem finishBlock_called (placed : Placed s) (h : s.finishBlock net eb p = some s') :
    Called s s' := by
  simp only [finishBlock, Option.bind_eq_bind, Option.bind_eq_some_iff] at h
  obtain ⟨t, ht, h⟩ := h
  obtain rfl := checkController_spec ht
  have noted : Called s (s.callback (some p) .PRE_END) := .of_memory rfl rfl rfl
  exact noted.trans (runEnd_called (noted.placed placed) h)

end Routines

/-! ## The current block and the callback -/

theorem SetWaitMask_trace {mask : BitVec 32} (h : s.SetWaitMask mask = some s') :
    s'.trace = s.trace := by
  obtain ⟨_, rfl⟩ := SetWaitMask_spec h
  rfl

theorem openBlock_trace (h : s.openBlock eb p = some s') :
    s'.trace = s.trace ++ [(.PRE_START, some p)] := by
  rw [openBlock] at h
  split at h
  · split at h
    · obtain ⟨_, _, rfl⟩ := set_aton_owner_spec h
      rfl
    · cases h
      rfl
  · cases h

theorem armBlock_same (h : s.armBlock eb p = some s') :
    s'.exec_state = s.exec_state ∧ s'.trace = s.trace := by
  rw [armBlock] at h
  split_ifs at h
  · obtain ⟨_, rfl⟩ := SetWaitMask_spec h
    exact ⟨rfl, rfl⟩
  · cases h
    exact ⟨rfl, rfl⟩
  · obtain ⟨_, rfl⟩ := SetWaitMask_spec h
    exact ⟨rfl, rfl⟩

theorem wait_trace : (s.wait net eb p).trace = s.trace := by
  rw [wait]
  split <;> rfl

theorem disarmBlock_trace (h : s.disarmBlock eb = some s') : s'.trace = s.trace := by
  rw [disarmBlock] at h
  split at h
  · exact SetWaitMask_trace h
  · cases h
    rfl

theorem releaseBlock_trace (h : s.releaseBlock eb p = some s') :
    s'.trace = s.trace ++ [(.POST_END, some p)] := by
  obtain ⟨t, ht, h⟩ := Option.bind_eq_some_iff.mp h
  obtain ⟨_, h⟩ := Option.ite_none_right_eq_some.mp h
  cases h
  split at ht
  · obtain ⟨_, _, rfl⟩ := clear_aton_owner_spec ht
    rfl
  · cases ht
    rfl

theorem DetermineNextEpochBlock_trace (h : s.DetermineNextEpochBlock = some s') :
    s'.trace = s.trace := by
  rw [DetermineNextEpochBlock] at h
  split at h
  · obtain ⟨_, h⟩ := Option.ite_none_right_eq_some.mp h
    cases h
    rfl
  · cases h
    rfl

theorem RetFromLib_trace {unlock : Bool} (h : s.RetFromLibEpochBlockArray net unlock = some s') :
    s'.trace = s.trace := by
  simp only [RetFromLibEpochBlockArray, Option.bind_eq_bind, Option.bind_eq_some_iff,
    Option.ite_none_right_eq_some, Option.map_eq_some_iff] at h
  obtain ⟨_, _, _, _, _, _, _, t, ht, rfl⟩ := h
  split at ht
  · obtain ⟨_, _, rfl⟩ := clear_aton_owner_spec ht
    rfl
  · cases ht
    rfl

theorem returnFromLib_trace (h : s.returnFromLib net = some s') : s'.trace = s.trace := by
  obtain ⟨t, ht, h⟩ := Option.bind_eq_some_iff.mp h
  have same := RetFromLib_trace ht
  cases h
  exact same

theorem SetCurrentEpochBlock_trace {index : Int}
    (h : s.SetCurrentEpochBlock net index = some s') : s'.trace = s.trace := by
  obtain ⟨_, h⟩ := Option.ite_none_right_eq_some.mp h
  cases h
  rfl

section Traces

variable [DecidableEq ι]

/-- A start routine does not move the current block. -/
theorem startCall_same {c : StartCall ι} (h : s.startCall c = some s') :
    s'.exec_state.current_epoch_block = s.exec_state.current_epoch_block ∧
      s'.trace = s.trace := by
  cases c with
  | insert i =>
      obtain ⟨_, h⟩ := Option.ite_none_right_eq_some.mp h
      cases h
      exact ⟨rfl, rfl⟩
  | assignWaitMask i index mask =>
      cases h
      exact ⟨rfl, rfl⟩
  | setWaitMask i index mask =>
      obtain ⟨_, rfl⟩ := SetWaitMask_spec h
      exact ⟨rfl, rfl⟩

theorem endCall_trace {c : EndCall ι} (h : s.endCall net c = some s') : s'.trace = s.trace := by
  cases c with
  | start call => exact (startCall_same h).2
  | inc n =>
      obtain ⟨_, h⟩ := Option.ite_none_right_eq_some.mp h
      exact SetCurrentEpochBlock_trace h
  | dec n =>
      obtain ⟨_, h⟩ := Option.ite_none_right_eq_some.mp h
      exact SetCurrentEpochBlock_trace h
  | ret => exact RetFromLib_trace h

theorem launchBlock_same (h : s.launchBlock eb p = some s') :
    s'.exec_state.current_epoch_block = s.exec_state.current_epoch_block ∧
      s'.trace = s.trace ++ [(.POST_START, some p)] := by
  simp only [launchBlock, Option.bind_eq_bind, Option.bind_eq_some_iff] at h
  obtain ⟨t, ht, u, hu, h⟩ := h
  obtain rfl := checkController_spec hu
  cases h
  suffices same : u.exec_state.current_epoch_block = s.exec_state.current_epoch_block ∧
      u.trace = s.trace from ⟨same.1, by rw [← same.2]; rfl⟩
  cases hf : eb.start_epoch_block with
  | none =>
      rw [hf] at ht
      cases ht
      exact ⟨rfl, rfl⟩
  | some f =>
      rw [hf, runStart] at ht
      refine foldlM_inv (P := fun t => t.exec_state.current_epoch_block =
        s.exec_state.current_epoch_block ∧ t.trace = s.trace) ?_ ?_ ht
      · intro c t t' same turn
        obtain ⟨current, trace⟩ := startCall_same turn
        exact ⟨current.trans same.1, trace.trans same.2⟩
      · exact ⟨rfl, rfl⟩

theorem finishBlock_trace (h : s.finishBlock net eb p = some s') :
    s'.trace = s.trace ++ [(.PRE_END, some p)] := by
  simp only [finishBlock, Option.bind_eq_bind, Option.bind_eq_some_iff] at h
  obtain ⟨t, ht, h⟩ := h
  obtain rfl := checkController_spec ht
  cases hf : eb.end_epoch_block with
  | none =>
      rw [hf] at h
      cases h
      rfl
  | some f =>
      rw [hf, runEnd] at h
      refine foldlM_inv (P := fun t => t.trace = s.trace ++ [(.PRE_END, some p)]) ?_ ?_ h
      · exact fun c t t' same turn => (endCall_trace turn).trans same
      · rfl

end Traces
end State
end PeopleDetection.Aton
