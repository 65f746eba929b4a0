import Mathlib.Data.List.Basic

/-!
# Epoch blocks of the ATON runtime

The compiler cuts a network into epoch blocks. A block has a start and an end routine, and
names the hardware units that it waits for in between. The runtime walks an array of
blocks: it starts a block, waits, ends it and goes on to the next. A hybrid block may
insert an array of the library, which runs before the block behind the hybrid one.

The routines are parameters. A routine changes the memory `σ` and calls the runtime; as
the runtime demands, the calls that move the current block come from end routines only.
`none` is a failed `LL_ATON_ASSERT`, or a pointer that has left its array.
-/

namespace PeopleDetection.Aton

/-! ## Blocks -/

abbrev ATON_STRENG_NUM : Nat := 10
abbrev ATON_EPOCHCTRL_NUM : Nat := 1

/-- `ATON_STRENG_INT_MASK(ATON_STRENG_NUM, 0, 0)`. -/
abbrev ATON_STRENG_INT_MASK : BitVec 32 := 0x3ff#32

/-- `ATON_INT_GET_MASK(ATON_EPOCHCTRL_INT_MASK, unit)`. -/
def ATON_EPOCHCTRL_INT_MASK (unit : BitVec 32) : BitVec 32 :=
  if unit = 0 ∨ unit = 1 then 0x10000000#32 else 0

/-- A set of streaming engines. -/
abbrev StreamMask := { m : BitVec 32 // m &&& ~~~ATON_STRENG_INT_MASK = 0 }

abbrev EpochBlock_Flags_epoch_start : BitVec 16 := 0x1#16 <<< 0
abbrev EpochBlock_Flags_epoch_end : BitVec 16 := 0x1#16 <<< 1
abbrev EpochBlock_Flags_blob : BitVec 16 := 0x1#16 <<< 2
abbrev EpochBlock_Flags_last_eb : BitVec 16 := 0x1#16 <<< 3
abbrev EpochBlock_Flags_pure_hw : BitVec 16 := 0x1#16 <<< 4
abbrev EpochBlock_Flags_pure_sw : BitVec 16 := 0x1#16 <<< 5
abbrev EpochBlock_Flags_hybrid : BitVec 16 := 0x1#16 <<< 6
abbrev EpochBlock_Flags_internal : BitVec 16 := 0x1#16 <<< 7

/-- The arrays of epoch blocks: that of the network, and those of the library. -/
inductive EpochList (ι : Type) where
  | network
  | lib (i : ι)
  deriving DecidableEq

/-- A pointer to an epoch block. -/
structure EpochPtr (ι : Type) where
  list : EpochList ι
  index : Int
  deriving DecidableEq

def EpochPtr.succ {ι : Type} (p : EpochPtr ι) : EpochPtr ι := ⟨p.list, p.index + 1⟩

/-- The `wait_mask` members of the library's blocks, which its routines assign. -/
abbrev LibMasks (ι : Type) := ι → Int → StreamMask

/-- What a start routine asks of the runtime: `LL_ATON_RT_Insert_LibEpochBlockArray`, an
assignment to a `wait_mask`, and `__ll_lib_set_wait_mask`. -/
inductive StartCall (ι : Type) where
  | insert (list : ι)
  | assignWaitMask (list : ι) (index : Int) (mask : StreamMask)
  | setWaitMask (list : ι) (index : Int) (mask : StreamMask)

/-- What an end routine may ask besides: `LL_ATON_RT_IncCurrEpochBlock`,
`LL_ATON_RT_DecCurrEpochBlock` and `__LL_ATON_RT_RetFromLibEpochBlockArray(false, NULL)`. -/
inductive EndCall (ι : Type) where
  | start (call : StartCall ι)
  | inc (n : Nat)
  | dec (n : Nat)
  | ret

/-- A routine, with the calls it makes. -/
abbrev Routine (ι σ C : Type) := LibMasks ι → σ → σ × List C

structure EpochBlock_ItemTypeDef (ι σ : Type) where
  start_epoch_block : Option (Routine ι σ (StartCall ι))
  end_epoch_block : Option (Routine ι σ (EndCall ι))
  wait_mask : BitVec 32
  flags : BitVec 16

section Flags

variable {ι σ : Type} (eb : EpochBlock_ItemTypeDef ι σ)

def EpochBlock_IsEpochStart : Bool := eb.flags &&& EpochBlock_Flags_epoch_start != 0
def EpochBlock_IsLastEpochBlock : Bool := eb.flags &&& EpochBlock_Flags_last_eb != 0
def EpochBlock_IsEpochBlob : Bool := eb.flags &&& EpochBlock_Flags_blob != 0
def EpochBlock_IsEpochPureHW : Bool := eb.flags &&& EpochBlock_Flags_pure_hw != 0
def EpochBlock_IsEpochHybrid : Bool := eb.flags &&& EpochBlock_Flags_hybrid != 0
def EpochBlock_IsEpochInternal : Bool := eb.flags &&& EpochBlock_Flags_internal != 0

/-- In case of a blob, `wait_mask` is the number of the epoch controller. -/
def EpochBlock_EpochControllerUnit : BitVec 32 := eb.wait_mask

end Flags

/-- A program for the NPU: the arrays of epoch blocks, and what the hardware computes in
each block. A block is of one kind, the blocks of the library are internal, and only a
block that sets the wait mask of the interrupt controller waits for streaming engines. -/
structure Program (ι σ : Type) where
  items : EpochList ι → List (EpochBlock_ItemTypeDef ι σ)
  compute : EpochPtr ι → σ → σ
  controllers : ∀ l, ∀ eb ∈ items l, EpochBlock_IsEpochBlob eb = true →
    (EpochBlock_EpochControllerUnit eb).toNat < ATON_EPOCHCTRL_NUM
  engines : ∀ eb ∈ items .network, EpochBlock_IsEpochBlob eb = false →
    eb.wait_mask &&& ~~~ATON_STRENG_INT_MASK = 0
  unarmed : ∀ eb ∈ items .network, EpochBlock_IsEpochBlob eb = false →
    EpochBlock_IsEpochPureHW eb = false → eb.wait_mask = 0
  external : ∀ eb ∈ items .network, EpochBlock_IsEpochInternal eb = false
  internal : ∀ i, ∀ eb ∈ items (.lib i), EpochBlock_IsLastEpochBlock eb = false →
    EpochBlock_IsEpochInternal eb = true ∧ EpochBlock_IsEpochPureHW eb = false ∧
      EpochBlock_IsEpochHybrid eb = false

/-! ## The state of the runtime -/

/-- The pointers of `NN_Execution_State_TypeDef`. The first block of an array stands for
the array. -/
structure NN_Execution_State_TypeDef (ι : Type) where
  current_epoch_block : EpochPtr ι
  first_epoch_block : EpochList ι
  next_epoch_block : Option ι
  saved_current_epoch_block : Option (EpochPtr ι)
  saved_first_epoch_block : Option (EpochList ι)

inductive LL_ATON_RT_Callbacktype where
  | PRE_START
  | POST_START
  | PRE_END
  | POST_END
  | NN_Init
  | NN_DeInit
  deriving DecidableEq

/-- A call of `epoch_callback_function`: its type, and the epoch block, which may be `NULL`. -/
abbrev CallbackCall (ι : Type) := LL_ATON_RT_Callbacktype × Option (EpochPtr ι)

/-- The runtime and the memory. `aton_ip_owner` says whether `__ll_current_aton_ip_owner`
is the one network instance, rather than `NULL`; `trace` records the calls of
`epoch_callback_function`. -/
structure State (ι σ : Type) where
  exec_state : NN_Execution_State_TypeDef ι
  aton_ip_owner : Bool
  current_wait_mask : BitVec 32
  masks : LibMasks ι
  data : σ
  trace : List (CallbackCall ι)

inductive LL_ATON_RT_RetValues_t where
  | LL_ATON_RT_NO_WFE
  | LL_ATON_RT_WFE
  | LL_ATON_RT_DONE
  deriving DecidableEq

variable {ι σ : Type}

namespace Program

variable (net : Program ι σ)

/-- The block that a pointer refers to. -/
def block (p : EpochPtr ι) : Option (EpochBlock_ItemTypeDef ι σ) :=
  if 0 ≤ p.index then (net.items p.list)[p.index.toNat]? else none

/-- `__LL_ATON_RT_CntEpochBlocks`, which also counts the terminating block. -/
def CntEpochBlocks : List (EpochBlock_ItemTypeDef ι σ) → Nat
  | [] => 0
  | eb :: rest => if EpochBlock_IsLastEpochBlock eb then 1 else CntEpochBlocks rest + 1

end Program

namespace State

variable (net : Program ι σ) (eb : EpochBlock_ItemTypeDef ι σ) (p : EpochPtr ι) (s : State ι σ)

/-- The member `wait_mask` of a block. -/
def waitMask : BitVec 32 :=
  match p.list with
  | .network => eb.wait_mask
  | .lib i => (s.masks i p.index).1

def GetWaitMask : BitVec 32 :=
  if EpochBlock_IsEpochBlob eb then 1#32 <<< (EpochBlock_EpochControllerUnit eb).toNat
  else s.waitMask eb p

/-- A call of the callback. -/
def callback (epoch_block : Option (EpochPtr ι)) (ctype : LL_ATON_RT_Callbacktype) : State ι σ :=
  { s with trace := s.trace ++ [(ctype, epoch_block)] }

def set_aton_owner : Option (State ι σ) :=
  if s.aton_ip_owner = false ∧ s.current_wait_mask = 0 then
    some { s with aton_ip_owner := true }
  else none

def clear_aton_owner : Option (State ι σ) :=
  if s.aton_ip_owner = true ∧ s.current_wait_mask = 0 then
    some { s with aton_ip_owner := false }
  else none

def SetWaitMask (mask : BitVec 32) : Option (State ι σ) :=
  if s.aton_ip_owner then some { s with current_wait_mask := mask } else none

/-! ## Calls of the routines -/

def Insert_LibEpochBlockArray (i : ι) : Option (State ι σ) :=
  if s.aton_ip_owner = true ∧ s.exec_state.next_epoch_block = none ∧
      s.exec_state.saved_current_epoch_block = none then
    some { s with exec_state := { s.exec_state with next_epoch_block := some i } }
  else none

def assignWaitMask [DecidableEq ι] (i : ι) (index : Int) (mask : StreamMask) : State ι σ :=
  { s with masks := Function.update s.masks i (Function.update (s.masks i) index mask) }

def startCall [DecidableEq ι] (s : State ι σ) : StartCall ι → Option (State ι σ)
  | .insert i => s.Insert_LibEpochBlockArray i
  | .assignWaitMask i index mask => some (s.assignWaitMask i index mask)
  | .setWaitMask i index mask => (s.assignWaitMask i index mask).SetWaitMask mask

def SetCurrentEpochBlock (index : Int) : Option (State ι σ) :=
  if index < (net.items s.exec_state.first_epoch_block |> Program.CntEpochBlocks : Int) - 1 then
    some { s with exec_state :=
      { s.exec_state with current_epoch_block := ⟨s.exec_state.first_epoch_block, index⟩ } }
  else none

def IncCurrEpochBlock (inc : Nat) : Option (State ι σ) :=
  if s.aton_ip_owner then
    s.SetCurrentEpochBlock net (s.exec_state.current_epoch_block.index + inc)
  else none

def DecCurrEpochBlock (dec : Nat) : Option (State ι σ) :=
  if s.aton_ip_owner = true ∧ dec ≤ s.exec_state.current_epoch_block.index + 1 then
    s.SetCurrentEpochBlock net (s.exec_state.current_epoch_block.index - dec)
  else none

/-- The saved context becomes the current one. -/
def restoreContext (saved : EpochPtr ι) : State ι σ :=
  { s with exec_state :=
    { current_epoch_block := saved
      first_epoch_block :=
        s.exec_state.saved_first_epoch_block.getD s.exec_state.first_epoch_block
      next_epoch_block := none
      saved_current_epoch_block := none
      saved_first_epoch_block := none } }

/-- `__LL_ATON_RT_RetFromLibEpochBlockArray`. -/
def RetFromLibEpochBlockArray (unlock : Bool) : Option (State ι σ) := do
  let saved ← s.exec_state.saved_current_epoch_block
  let eb ← net.block s.exec_state.current_epoch_block
  let hybrid ← net.block saved
  if s.aton_ip_owner = true ∧
      (if unlock then EpochBlock_IsLastEpochBlock eb else EpochBlock_IsEpochInternal eb) = true ∧
      EpochBlock_IsEpochHybrid hybrid = true ∧ s.exec_state.next_epoch_block = none then
    (if unlock then s.clear_aton_owner else some s).map fun s => s.restoreContext saved
  else none

def endCall [DecidableEq ι] (s : State ι σ) : EndCall ι → Option (State ι σ)
  | .start call => s.startCall call
  | .inc n => s.IncCurrEpochBlock net n
  | .dec n => s.DecCurrEpochBlock net n
  | .ret => s.RetFromLibEpochBlockArray net false

/-- A start routine, or none. -/
def runStart [DecidableEq ι] (s : State ι σ) :
    Option (Routine ι σ (StartCall ι)) → Option (State ι σ)
  | none => some s
  | some f => (f s.masks s.data).2.foldlM startCall { s with data := (f s.masks s.data).1 }

/-- An end routine, or none. -/
def runEnd [DecidableEq ι] (s : State ι σ) :
    Option (Routine ι σ (EndCall ι)) → Option (State ι σ)
  | none => some s
  | some f => (f s.masks s.data).2.foldlM (endCall net) { s with data := (f s.masks s.data).1 }

/-! ## Starting and ending a block

`__LL_ATON_RT_ExecStartEpochBlock` and `__LL_ATON_RT_ExecEndEpochBlock` in parts, between
which interrupts may arrive. -/

/-- Up to taking the ownership of the hardware. -/
def openBlock : Option (State ι σ) :=
  if s.exec_state.next_epoch_block = none then
    let s := s.callback (some p) .PRE_START
    if EpochBlock_IsEpochPureHW eb || EpochBlock_IsEpochHybrid eb then s.set_aton_owner
    else some s
  else none

/-- The wait mask. -/
def armBlock : Option (State ι σ) :=
  if !EpochBlock_IsEpochBlob eb then
    if EpochBlock_IsEpochPureHW eb || EpochBlock_IsEpochInternal eb then
      s.SetWaitMask (s.waitMask eb p)
    else some s
  else s.SetWaitMask ATON_STRENG_INT_MASK

/-- The assertion on the number of an epoch controller. -/
def checkController : Option (State ι σ) :=
  if EpochBlock_IsEpochBlob eb = true →
      (EpochBlock_EpochControllerUnit eb).toNat < ATON_EPOCHCTRL_NUM then some s
  else none

/-- The start routine. For a blob, the epoch controller is enabled thereafter. -/
def launchBlock [DecidableEq ι] : Option (State ι σ) := do
  let s ← s.runStart eb.start_epoch_block
  let s ← s.checkController eb
  some (s.callback (some p) .POST_START)

/-- The end routine. For a blob, the epoch controller is disabled before. -/
def finishBlock [DecidableEq ι] : Option (State ι σ) := do
  let s ← (s.callback (some p) .PRE_END).checkController eb
  s.runEnd net eb.end_epoch_block

/-- The wait mask is reset. -/
def disarmBlock : Option (State ι σ) :=
  if EpochBlock_IsEpochPureHW eb || EpochBlock_IsEpochInternal eb then s.SetWaitMask 0
  else some s

/-- Whether a block that ends gives up the ownership of the hardware. A hybrid block that
has inserted an array keeps it, and so does the array. -/
def releases : Bool :=
  EpochBlock_IsEpochPureHW eb || ((EpochBlock_IsEpochHybrid eb || EpochBlock_IsEpochInternal eb) &&
    s.exec_state.saved_current_epoch_block.isNone && s.exec_state.next_epoch_block.isNone)

/-- The ownership of the hardware, and the assertion on it. -/
def releaseBlock : Option (State ι σ) :=
  (if s.releases eb then s.clear_aton_owner else some s).bind fun s =>
    if EpochBlock_IsEpochInternal eb || EpochBlock_IsEpochHybrid eb || !s.aton_ip_owner then
      some (s.callback (some p) .POST_END)
    else none

/-- `__LL_ATON_RT_DetermineNextEpochBlock`. -/
def DetermineNextEpochBlock : Option (State ι σ) :=
  match s.exec_state.next_epoch_block with
  | some i =>
      if s.exec_state.saved_current_epoch_block = none then
        some { s with exec_state :=
          { current_epoch_block := ⟨.lib i, 0⟩
            first_epoch_block := .lib i
            next_epoch_block := none
            saved_current_epoch_block := some s.exec_state.current_epoch_block
            saved_first_epoch_block := some s.exec_state.first_epoch_block } }
      else none
  | none =>
      some { s with exec_state :=
        { s.exec_state with current_epoch_block := s.exec_state.current_epoch_block.succ } }

/-- The end of an array: back to the block behind the one that inserted it. -/
def returnFromLib : Option (State ι σ) := do
  let s ← s.RetFromLibEpochBlockArray net true
  some { s with exec_state :=
    { s.exec_state with current_epoch_block := s.exec_state.current_epoch_block.succ } }

/-! ## Polling -/

/-- The hardware has done its part of the block. -/
def wait : State ι σ :=
  if s.GetWaitMask eb p = 0 then s else { s with data := net.compute p s.data }

/-- A block from its start to its end. -/
def runBlock [DecidableEq ι] : Option (State ι σ) := do
  let s ← s.openBlock eb p
  let s ← s.armBlock eb p
  let s ← s.launchBlock eb p
  let s ← (s.wait net eb p).finishBlock net eb p
  let s ← s.disarmBlock eb
  let s ← s.releaseBlock eb p
  s.DetermineNextEpochBlock

/-- `LL_ATON_RT_RunEpochBlock` when it polls (`LL_ATON_RT_POLLING`): it waits for each block
in place. Here it runs blobs as well, for which the polling build has no epoch controller. -/
def RunEpochBlock_polling [DecidableEq ι] :
    Option (LL_ATON_RT_RetValues_t × State ι σ) := do
  let eb ← net.block s.exec_state.current_epoch_block
  if EpochBlock_IsLastEpochBlock eb then
    if s.exec_state.saved_current_epoch_block.isSome then
      let s ← s.returnFromLib net
      some (.LL_ATON_RT_NO_WFE, s)
    else some (.LL_ATON_RT_DONE, s)
  else
    let s ← s.runBlock net eb s.exec_state.current_epoch_block
    some (.LL_ATON_RT_NO_WFE, s)

/-- One step of an inference that polls, before it is done. -/
def pollStep [DecidableEq ι] (net : Program ι σ) (s : State ι σ) : Option (State ι σ) :=
  match s.RunEpochBlock_polling net with
  | some (.LL_ATON_RT_NO_WFE, s') => some s'
  | _ => none

/-- The inference is done. -/
def Done : Prop :=
  ∃ eb, net.block s.exec_state.current_epoch_block = some eb ∧
    EpochBlock_IsLastEpochBlock eb = true ∧ s.exec_state.saved_current_epoch_block = none

/-! ## Between inferences -/

/-- `__LL_ATON_RT_Init_Network`. The callback is called last. -/
def Init_Network : State ι σ :=
  let s := { s with exec_state := ⟨⟨.network, 0⟩, .network, none, none, none⟩ }
  s.callback none .NN_Init

/-- `LL_ATON_RT_DeInit_Network`, without the pointers, which `Init_Network` sets again. The
callback is called first. -/
def DeInit_Network : Option (State ι σ) :=
  let s := s.callback none .NN_DeInit
  if s.aton_ip_owner then s.clear_aton_owner else some s

/-- `LL_ATON_RT_Reset_Network`. -/
def Reset_Network : Option (State ι σ) := do
  let s ← s.DeInit_Network
  some s.Init_Network

end State
end PeopleDetection.Aton
