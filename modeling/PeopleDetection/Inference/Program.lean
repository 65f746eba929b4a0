import PeopleDetection.Library.Interleaving
import PeopleDetection.Library.WriteBackCache

/-!
# Inference on the NPU

One inference as the memory sees it. The processor fills the image buffer, and
`run_nn_from_sd_card` maintains the cache, starts the NPU, dequantizes the output of the
network, and post-processes the result in place. The processor works through a write-back
cache, the NPU on memory.

The network is a list of NPU stores, in the order of its epochs and inside the buffers of
`network.c`. What the stores compute is a parameter: each reads only the image and what
the same inference has stored before.
-/

namespace PeopleDetection

open Library

/-! ## Memory -/

/-- A byte of the activation pool at `0x34200000`, or of the image buffer. -/
inductive Addr where
  | pool (n : Nat)
  | image (n : Nat)
  deriving DecidableEq

/-- A line of the cache. Both the pool and the image buffer are aligned to lines. -/
inductive Line where
  | pool (l : Nat)
  | image (l : Nat)
  deriving DecidableEq

/-- The bytes of a line. -/
abbrev CACHE_LINE : Nat := 32

def lineOf : Addr → Line
  | .pool n => .pool (n / CACHE_LINE)
  | .image n => .image (n / CACHE_LINE)

/-- The lines that a range of bytes touches. -/
def linesOf (start size : Nat) : List Nat :=
  List.range' (start / CACHE_LINE)
    ((start + size + (CACHE_LINE - 1)) / CACHE_LINE - start / CACHE_LINE)

/-! ## The network -/

/-- `LL_Buffer_len` of the input, and of the output at offset 0 of the pool. -/
abbrev nn_in_len : Nat := 150528
abbrev nn_out_len : Nat := 5880

/-- `Conv2D_52_off_bias_out_79`, the quantized output. -/
abbrev QUANTIZED : Nat := 26560
abbrev QUANTIZED_LEN : Nat := 1470

/-- An entry of `LL_ATON_Internal_Buffers_Info_Default` in the pool. -/
structure Buffer where
  epoch : Nat
  offset_start : Nat
  offset_end : Nat

/-- The buffers that the epochs of the first blob fill. -/
def activations : List Buffer :=
  [⟨2, 200704, 351232⟩, ⟨3, 0, 200704⟩, ⟨4, 200704, 401408⟩, ⟨5, 0, 100352⟩,
    ⟨6, 100352, 200704⟩, ⟨7, 0, 50176⟩, ⟨8, 50176, 100352⟩, ⟨9, 100352, 106624⟩,
    ⟨9, 25088, 50176⟩, ⟨10, 0, 25088⟩, ⟨11, 37632, 39200⟩, ⟨11, 25088, 37632⟩,
    ⟨12, 0, 12544⟩, ⟨13, 50176, 50568⟩, ⟨13, 25088, 50176⟩, ⟨14, 0, 25088⟩,
    ⟨15, 25088, 50176⟩, ⟨16, 50176, 75264⟩, ⟨17, 100352, 100744⟩, ⟨17, 0, 50176⟩,
    ⟨18, 50176, 100352⟩, ⟨19, 28032, 28424⟩, ⟨19, 0, 25088⟩, ⟨20, 25088, 26558⟩,
    ⟨20, 26560, 28030⟩]

/-- A store of the NPU: an offset in the pool, and a value made of what it reads. -/
structure NpuStore (V : Type) where
  epoch : Nat
  target : Nat
  reads : List Addr
  value : (Addr → V) → V
  value_congr : ∀ m m', (∀ a ∈ reads, m a = m' a) → value m = value m'

/-- An address that an inference has defined: a byte of the image, or one of the offsets
`known` in the pool. -/
def Defined (known : List Nat) : Addr → Prop
  | .image n => n < nn_in_len
  | .pool n => n ∈ known

/-- Each store reads what is defined when it is made. -/
def Dataflow {V : Type} : List Nat → List (NpuStore V) → Prop
  | _, [] => True
  | known, st :: rest => (∀ a ∈ st.reads, Defined known a) ∧ Dataflow (st.target :: known) rest

/-- The network, with the bytes of a dequantized value. -/
structure Network (V : Type) where
  stores : List (NpuStore V)
  dequantize : V → Nat → V
  ordered : stores.Pairwise fun a b => a.epoch ≤ b.epoch
  inBuffer : ∀ st ∈ stores, ∃ b ∈ activations,
    b.epoch = st.epoch ∧ b.offset_start ≤ st.target ∧ st.target < b.offset_end
  dataflow : Dataflow [] stores
  output : ∀ i < QUANTIZED_LEN, ∃ st ∈ stores, st.target = QUANTIZED + i

/-- Memory after some stores, without a cache. -/
def applyStores {V : Type} (stores : List (NpuStore V)) (m : Addr → V) : Addr → V :=
  stores.foldl (fun m st => Function.update m (.pool st.target) (st.value m)) m

namespace Network

variable {V : Type} (net : Network V) (image : Nat → V)

/-- What the network computes from an image: its stores on a memory with the image. What
the pool holds before does not matter. -/
def quantized (i : Nat) : V :=
  applyStores net.stores (fun | .image n => image n | .pool n => image n) (.pool (QUANTIZED + i))

/-- A byte of the output tensor that the network computes from an image. -/
def outputTensor (n : Nat) : V := net.dequantize (net.quantized image (n / 4)) (n % 4)

end Network

/-! ## Operations -/

section Program

variable {V : Type}

/-- An operation of the processor or the NPU. A load fills a register, a store writes a
value made of it. -/
inductive Op (V : Type) where
  | load (a : Addr)
  | store (a : Addr) (f : V → V)
  | clean (l : Line)
  | invalidate (l : Line)
  | npu (st : NpuStore V)

/-- Memory with the cache, and a register of the processor. -/
structure Mcu (V : Type) where
  cached : Cached Addr Line V
  reg : V

namespace Mcu

def exec : Op V → Mcu V → Mcu V
  | .load a, s => ⟨s.cached.fetch lineOf (lineOf a), s.cached.view lineOf a⟩
  | .store a f, s => { s with cached := s.cached.store lineOf a (f s.reg) }
  | .clean l, s => { s with cached := s.cached.cleanLine lineOf l }
  | .invalidate l, s => { s with cached := s.cached.invalidateLine l }
  | .npu st, s =>
      { s with cached := s.cached.directStore (.pool st.target) (st.value s.cached.mem) }

def evict (e : Eviction Line) (s : Mcu V) : Mcu V :=
  { s with cached := s.cached.evict lineOf e }

/-- The runs of a program among evictions, each allowed where it happens. -/
abbrev Runs (allowed : Mcu V → Eviction Line → Prop) : List (Op V) → Mcu V → Mcu V → Prop :=
  Run exec evict allowed

/-- Every eviction, at any time. -/
def Any (_ : Mcu V) (_ : Eviction Line) : Prop := True

end Mcu

/-! ## The program -/

/-- `fs_read` into the image buffer. -/
def fs_read (image : Nat → V) : List (Op V) :=
  (List.range nn_in_len).map fun n => .store (.image n) fun _ => image n

/-- `sys_cache_data_flush_range(image, nn_in_len)`. -/
def flushImage : List (Op V) := (linesOf 0 nn_in_len).map fun l => .clean (.image l)

/-- Maintenance of a range of the pool. -/
def invalidateRange (start size : Nat) : List (Op V) :=
  (linesOf start size).map fun l => .invalidate (.pool l)

def cleanRange (start size : Nat) : List (Op V) :=
  (linesOf start size).map fun l => .clean (.pool l)

/-- Static variables of `model.c` to which no code assigns. -/
def number_output : Nat := 0
def outs : Nat → Nat := fun _ => 0
def outs_len : Nat → Nat := fun _ => 0

/-- The loop `for (int i = 0; i < number_output; i++) sys_cache_data_invd_range(…)`. -/
def invalidateOutputs : List (Op V) :=
  (List.range number_output).flatMap fun i => invalidateRange (outs i) (outs_len i)

/-- `_ec_blob_cache_start_func_1`. -/
def ec_blob_cache_start_func_1 : List (Op V) := invalidateRange 26560 1472

/-- One value of `ll_sw_forward_dequantizelinear`. -/
def dequantizeValue (net : Network V) (i : Nat) : List (Op V) :=
  .load (.pool (QUANTIZED + i)) ::
    (List.range 4).map fun b => .store (.pool (4 * i + b)) fun x => net.dequantize x b

def LL_ATON_End_EpochBlock_21 (net : Network V) : List (Op V) :=
  invalidateRange 5856 32 ++
    ((List.range QUANTIZED_LEN).flatMap (dequantizeValue net) ++ cleanRange 0 5888)

/-- Up to the NPU epochs of the first blob. -/
def prepare (image : Nat → V) : List (Op V) :=
  fs_read image ++ (flushImage ++ (invalidateOutputs ++ ec_blob_cache_start_func_1))

/-- The NPU epochs 1 to 20. -/
def npuEpochs (net : Network V) : List (Op V) := net.stores.map .npu

/-- From the NPU epochs to post-processing. The blob of the last epochs is empty. -/
def finish (net : Network V) : List (Op V) := LL_ATON_End_EpochBlock_21 net ++ invalidateOutputs

/-- The end of the records in the output tensor. The limit loop of the post-processing
visits the record behind the 245 anchors. -/
abbrev RECORDS_END : Nat := 5904

/-- A processor access that post-processing may make. -/
def InRecords : Op V → Prop
  | .load _ => True
  | .store (.pool n) _ => n < RECORDS_END
  | _ => False

/-- An image, and the accesses of the post-processing of its output tensor. -/
structure ImageRun (V : Type) where
  image : Nat → V
  post : List (Op V)
  inRecords : ∀ op ∈ post, InRecords op

/-- A sequence of images from a state, with the state before each post-processing. During
the NPU epochs, only evictions in `allowed` happen. -/
inductive Inferences (net : Network V) (allowed : Mcu V → Eviction Line → Prop) :
    Mcu V → List (ImageRun V) → List (Mcu V) → Prop where
  | nil (s : Mcu V) : Inferences net allowed s [] []
  | cons {s prepared computed finished next : Mcu V} {r : ImageRun V} {rest : List (ImageRun V)}
      {states : List (Mcu V)}
      (before : Mcu.Runs Mcu.Any (prepare r.image) s prepared)
      (npu : Mcu.Runs allowed (npuEpochs net) prepared computed)
      (after : Mcu.Runs Mcu.Any (finish net) computed finished)
      (post : Mcu.Runs Mcu.Any r.post finished next)
      (later : Inferences net allowed next rest states) :
      Inferences net allowed s (r :: rest) (finished :: states)

/-- No record that post-processing left dirty is written back. -/
def SparesRecords (s : Mcu V) (e : Eviction Line) : Prop :=
  ∀ l < RECORDS_END / CACHE_LINE + 1, e = .writeBack (.pool l) → s.cached.status (.pool l) ≠ .dirty

end Program
end PeopleDetection
