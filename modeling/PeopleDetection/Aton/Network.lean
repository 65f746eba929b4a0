import PeopleDetection.Aton.Polling

/-!
# The epoch blocks of the network

`network.c` has three blocks: the blob of the NPU epochs 1 to 20, the software epoch 21
that dequantizes the output, and a blob of two empty epochs. What the first two do to the
memory is a parameter.
-/

namespace PeopleDetection.Aton

open Library

variable {ι σ : Type}

/-- A routine that does not call the runtime. -/
def plain {C : Type} (f : σ → σ) : Routine Empty σ C := fun _ d => (f d, [])

/-- `LL_ATON_EpochBlockItems_Default`. -/
def LL_ATON_EpochBlockItems_Default (_ec_blob_cache_start_func_1 : σ → σ)
    (LL_ATON_End_EpochBlock_21 : σ → σ) : List (EpochBlock_ItemTypeDef Empty σ) :=
  [{ start_epoch_block := some (plain _ec_blob_cache_start_func_1)
     end_epoch_block := none
     wait_mask := 0
     flags := EpochBlock_Flags_epoch_start ||| EpochBlock_Flags_epoch_end |||
       EpochBlock_Flags_blob ||| EpochBlock_Flags_pure_hw },
   { start_epoch_block := none
     end_epoch_block := some (plain LL_ATON_End_EpochBlock_21)
     wait_mask := 0x00000000
     flags := EpochBlock_Flags_epoch_start ||| EpochBlock_Flags_epoch_end |||
       EpochBlock_Flags_pure_sw },
   { start_epoch_block := none
     end_epoch_block := none
     wait_mask := 0
     flags := EpochBlock_Flags_epoch_start ||| EpochBlock_Flags_epoch_end |||
       EpochBlock_Flags_blob ||| EpochBlock_Flags_pure_hw },
   { start_epoch_block := none
     end_epoch_block := none
     wait_mask := 0
     flags := EpochBlock_Flags_last_eb }]

/-- Every block waits for the epoch controller 0, or for nothing. -/
theorem waits_for_none {f g : σ → σ} {eb : EpochBlock_ItemTypeDef Empty σ}
    (member : eb ∈ LL_ATON_EpochBlockItems_Default f g) :
    eb.wait_mask = 0 ∧ EpochBlock_IsEpochInternal eb = false := by
  simp only [LL_ATON_EpochBlockItems_Default, List.mem_cons, List.not_mem_nil, or_false] at member
  rcases member with rfl | rfl | rfl | rfl
  all_goals
    refine ⟨rfl, ?_⟩
    simp only [EpochBlock_IsEpochInternal]
    decide

/-- The network, with what the NPU does to the memory in the first blob. -/
def Default (start_func npu end_func : σ → σ) : Program Empty σ where
  items
    | .network => LL_ATON_EpochBlockItems_Default start_func end_func
    | .lib i => i.elim
  compute p := if p.index = 0 then npu else id
  controllers l eb member _ := by
    cases l with
    | network =>
        rw [EpochBlock_EpochControllerUnit, (waits_for_none member).1]
        decide
    | lib i => exact i.elim
  engines eb member _ := by
    rw [(waits_for_none member).1]
    rfl
  unarmed eb member _ _ := (waits_for_none member).1
  external eb member := (waits_for_none member).2
  internal i := i.elim

/-! ## Polling -/

/-- In front of a block of the network, with the hardware free. -/
def State.before (index : Int) (masks : LibMasks ι) (data : σ)
    (trace : List (CallbackCall ι)) : State ι σ where
  exec_state := ⟨⟨.network, index⟩, .network, none, none, none⟩
  aton_ip_owner := false
  current_wait_mask := 0
  masks := masks
  data := data
  trace := trace

section Steps

variable [DecidableEq ι] {net : Program ι σ} {eb : EpochBlock_ItemTypeDef ι σ}
variable {index : Int} {masks : LibMasks ι} {data : σ} {f : σ → σ}
variable {trace : List (CallbackCall ι)}

/-- A blob: the start routine, and the work of the NPU. -/
theorem pollStep_blob (hb : net.block ⟨.network, index⟩ = some eb)
    (flags : eb.flags = EpochBlock_Flags_epoch_start ||| EpochBlock_Flags_epoch_end |||
      EpochBlock_Flags_blob ||| EpochBlock_Flags_pure_hw)
    (unit : eb.wait_mask = 0) (ending : eb.end_epoch_block = none)
    (starting : ∀ s : State ι σ,
      s.runStart eb.start_epoch_block = some { s with data := f s.data }) :
    (State.before index masks data trace).pollStep net =
      some (.before (index + 1) masks (net.compute ⟨.network, index⟩ (f data))
        (trace ++ callbacksOf ⟨.network, index⟩)) := by
  have last : EpochBlock_IsLastEpochBlock eb = false := by
    rw [EpochBlock_IsLastEpochBlock, flags]
    decide
  have blob : EpochBlock_IsEpochBlob eb = true := by
    rw [EpochBlock_IsEpochBlob, flags]
    decide
  have hw : EpochBlock_IsEpochPureHW eb = true := by
    rw [EpochBlock_IsEpochPureHW, flags]
    decide
  simp [State.before, State.pollStep, State.RunEpochBlock_polling, State.runBlock,
    State.openBlock, State.armBlock, State.launchBlock, State.finishBlock, State.disarmBlock,
    State.releaseBlock, State.DetermineNextEpochBlock, State.callback, State.set_aton_owner,
    State.clear_aton_owner, State.SetWaitMask, State.checkController, State.wait,
    State.GetWaitMask, State.releases, State.runEnd, EpochBlock_EpochControllerUnit, callbacksOf,
    EpochPtr.succ, hb, last, blob, hw, unit, ending, starting]

/-- A block in software: the end routine. -/
theorem pollStep_software (hb : net.block ⟨.network, index⟩ = some eb)
    (flags : eb.flags = EpochBlock_Flags_epoch_start ||| EpochBlock_Flags_epoch_end |||
      EpochBlock_Flags_pure_sw)
    (unit : eb.wait_mask = 0) (starting : eb.start_epoch_block = none)
    (ending : ∀ s : State ι σ,
      s.runEnd net eb.end_epoch_block = some { s with data := f s.data }) :
    (State.before index masks data trace).pollStep net =
      some (.before (index + 1) masks (f data) (trace ++ callbacksOf ⟨.network, index⟩)) := by
  have last : EpochBlock_IsLastEpochBlock eb = false := by
    rw [EpochBlock_IsLastEpochBlock, flags]
    decide
  have blob : EpochBlock_IsEpochBlob eb = false := by
    rw [EpochBlock_IsEpochBlob, flags]
    decide
  have hw : EpochBlock_IsEpochPureHW eb = false := by
    rw [EpochBlock_IsEpochPureHW, flags]
    decide
  have hybrid : EpochBlock_IsEpochHybrid eb = false := by
    rw [EpochBlock_IsEpochHybrid, flags]
    decide
  have internal : EpochBlock_IsEpochInternal eb = false := by
    rw [EpochBlock_IsEpochInternal, flags]
    decide
  simp [State.before, State.pollStep, State.RunEpochBlock_polling, State.runBlock,
    State.openBlock, State.armBlock, State.launchBlock, State.finishBlock, State.disarmBlock,
    State.releaseBlock, State.DetermineNextEpochBlock, State.callback, State.checkController,
    State.wait, State.GetWaitMask, State.waitMask, State.releases, State.runStart, callbacksOf,
    EpochPtr.succ, hb, last, blob, hw, hybrid, internal, unit, ending, starting]

end Steps

/-- The state before the first inference. -/
def Fresh (data : σ) : State Empty σ := .before 0 (fun i => i.elim) data []

/-- The calls of the callback in one inference. -/
def callbacksOf_Default : List (CallbackCall Empty) :=
  [⟨.network, 0⟩, ⟨.network, 1⟩, ⟨.network, 2⟩].flatMap callbacksOf

/-- Polling takes three steps, one for each block. -/
theorem polled_Default (f g h : σ → σ) (masks : LibMasks Empty) (data : σ)
    (trace : List (CallbackCall Empty)) :
    after (State.pollStep (Default f g h)) 3 (.before 0 masks data trace) =
      some (.before 3 masks (h (g (f data))) (trace ++ callbacksOf_Default)) := by
  have first : (State.before 0 masks data trace).pollStep (Default f g h) =
      some (.before 1 masks (g (f data)) (trace ++ callbacksOf ⟨.network, 0⟩)) :=
    pollStep_blob rfl rfl rfl rfl fun _ => rfl
  have second (masks data trace) : (State.before 1 masks data trace).pollStep (Default f g h) =
      some (.before 2 masks (h data) (trace ++ callbacksOf ⟨.network, 1⟩)) :=
    pollStep_software rfl rfl rfl rfl fun _ => rfl
  have third (masks data trace) : (State.before 2 masks data trace).pollStep (Default f g h) =
      some (.before 3 masks data (trace ++ callbacksOf ⟨.network, 2⟩)) :=
    pollStep_blob (f := id) rfl rfl rfl rfl fun _ => rfl
  simp [after, first, second, third, callbacksOf_Default]

theorem settled_fresh (data : σ) : (Fresh data).Settled :=
  ⟨⟨rfl, .inl ⟨rfl, rfl⟩⟩, rfl, rfl, fun _ => rfl⟩

theorem done_Default (f g h : σ → σ) (masks : LibMasks Empty) (data : σ)
    (trace : List (CallbackCall Empty)) :
    (State.before 3 masks data trace).Done (Default f g h) := by
  refine ⟨_, rfl, ?_, rfl⟩
  simp only [EpochBlock_IsLastEpochBlock]
  decide

/-- The calls of the callback while the network is reset. -/
def callbacksOfReset : List (CallbackCall ι) := [(.NN_DeInit, none), (.NN_Init, none)]

theorem reset_before (index : Int) (masks : LibMasks ι) (data : σ)
    (trace : List (CallbackCall ι)) :
    (State.before index masks data trace).Reset_Network =
      some (.before 0 masks data (trace ++ callbacksOfReset)) := by
  simp [State.before, State.Reset_Network, State.DeInit_Network, State.Init_Network,
    State.callback, callbacksOfReset]

example : (State.RunEpochBlock_polling (Default (· + 1) (· * 10) (· + 7)) (Fresh 4)).map
    (fun r => (r.1, r.2.data)) = some (.LL_ATON_RT_NO_WFE, 50) := by rfl

end PeopleDetection.Aton
