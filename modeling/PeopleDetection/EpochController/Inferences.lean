import PeopleDetection.Aton.Started
import PeopleDetection.EpochController.Network

/-!
# Inferences from the blob in memory

The first block of the network runs the instructions that the loader left in memory, and
these have the address of an image buffer. Images may lie in different buffers: each
inference runs the blob relocated to the buffer of its own image, whatever interrupts
arrive.
-/

namespace PeopleDetection.EpochController

open Aton Library

variable {D : Type} (code : Instrs)

/-- `ec_inference_init`, and the data that it leaves alone. -/
def ec_inference_init (d : EcNetwork × D) : Option (EcNetwork × D) :=
  match LL_ATON_EC_Inference_Init_Default code d.1 with
  | some (true, ec) => some (ec, d.2)
  | _ => none

/-- An image in a buffer. -/
structure Image (D : Type) where
  buffer : ECAddr
  load : D → D

/-- `run_nn_from_sd_card` up to `Run_Inference`: the buffer is offered, and the result ignored. -/
def Image.set (image : Image D) (d : EcNetwork × D) : EcNetwork × D :=
  ((LL_ATON_Set_User_Input_Buffer_Default 0 image.buffer 150528 d.1).2, image.load d.2)

section Network

variable (start_func : D → D) (npu : List ECInstr → D → D) (end_func : D → D)

/-- The network. The NPU runs the instructions in memory. -/
def fromMemory : Program Empty (EcNetwork × D) :=
  Default (fun d => (d.1, start_func d.2)) (fun d => (d.1, npu d.1.ec_blob_Default_1.words d.2))
    (fun d => (d.1, end_func d.2))

/-- What an inference works on: the buffers of the blob, and other data. A buffer that is not
aligned is refused, and the last one stays. -/
def Image.prepared (image : Image D) (d : Buffers × D) : Buffers × D :=
  let input := if image.buffer % 32 = 0 then image.buffer else d.1.input
  (⟨input, input⟩, image.load d.2)

/-- One inference. -/
def infer (d : Buffers × D) (image : Image D) : Buffers × D :=
  let e := image.prepared d
  (e.1, end_func (npu (relocatedBlob code e.1.relocated) (start_func e.2)))

/-- The state of a network with given buffers. -/
def withBuffers (address : ℕ) (d : Buffers × D) : EcNetwork × D := (d.1.network code address, d.2)

variable {start_func npu end_func} {code} {address : ℕ}

/-- Setting the image of an inference and preparing the blob relocates it to its buffer. -/
theorem ec_inference_init_set (image : Image D) (d : Buffers × D) :
    ec_inference_init code (image.set (withBuffers code address d)) =
      some (withBuffers code address (image.prepared d)) := by
  have set : (LL_ATON_Set_User_Input_Buffer_Default 0 image.buffer 150528
      (d.1.network code address)).2 =
      Buffers.network code address ⟨d.1.relocated, (image.prepared d).1.input⟩ := by
    by_cases aligned : image.buffer % 32 = 0
    · have accepted : Accepted 0 image.buffer 150528 := ⟨rfl, aligned, BitVec.le_refl _⟩
      rw [set_accepted accepted]
      simp only [Image.prepared, if_pos aligned]
      rfl
    · have refused : ¬ Accepted 0 image.buffer 150528 := fun h => aligned h.2.1
      rw [(set_refused refused _).2]
      simp only [Image.prepared, if_neg aligned]
  have init : LL_ATON_EC_Inference_Init_Default code
      (Buffers.network code address ⟨d.1.relocated, (image.prepared d).1.input⟩) =
      some (true, Buffers.network code address
        ⟨(image.prepared d).1.input, (image.prepared d).1.input⟩) :=
    inference_init_eq code _
  rw [ec_inference_init, Image.set, withBuffers]
  simp only [set, init]
  rfl

/-- One inference that polls. -/
theorem poll_infer (image : Image D) (d : Buffers × D) (masks : LibMasks Empty)
    (trace : List (CallbackCall Empty)) :
    after (State.pollStep (fromMemory start_func npu end_func)) 3
        (.before 0 masks (withBuffers code address (image.prepared d)) trace) =
      some (.before 3 masks
        (withBuffers code address (infer code start_func npu end_func d image))
        (trace ++ callbacksOf_Default)) :=
  polled_Default _ _ _ masks _ trace

variable {masks : LibMasks Empty} {sem sem' : ℕ}
variable {trace : List (CallbackCall Empty)}

/-- Inferences in a row, polled. -/
theorem polledSession_fromMemory (images : List (Image D)) (d : Buffers × D)
    (trace : List (CallbackCall Empty)) :
    PolledSession (fromMemory start_func npu end_func)
      (.before 0 masks (withBuffers code address d) trace)
      ((images.map Image.set).map (Started.prepare (ec_inference_init code)))
      (.before 0 masks
        (withBuffers code address (images.foldl (infer code start_func npu end_func) d))
        (trace ++ images.flatMap fun _ => callbacksOf_Default ++ callbacksOfReset)) := by
  induction images generalizing d trace with
  | nil =>
      rw [List.flatMap_nil, List.append_nil]
      exact .nil _
  | cons image images ih =>
      rw [List.flatMap_cons, ← List.append_assoc, ← List.append_assoc]
      have prepared : Started.prepare (ec_inference_init code) image.set
          (withBuffers code address d) = withBuffers code address (image.prepared d) := by
        rw [Started.prepare, ec_inference_init_set, Option.getD_some]
      have run : after (State.pollStep (fromMemory start_func npu end_func)) 3
          (.before 0 masks (Started.prepare (ec_inference_init code) image.set
            (withBuffers code address d)) trace) =
          some (.before 3 masks
            (withBuffers code address (infer code start_func npu end_func d image))
            (trace ++ callbacksOf_Default)) := by
        rw [prepared]
        exact poll_infer image d masks trace
      exact .cons run (done_Default _ _ _ masks _ _) (reset_before 3 masks _ _) (ih _ _)

/-- Whatever interrupts arrive in a session of inferences, each one runs the blob relocated to
the buffer of its own image; if that buffer was refused, to the one before. -/
theorem session_relocated {images : List (Image D)} {d : Buffers × D}
    {t : State Empty (EcNetwork × D)}
    (session : Started.Session (fromMemory start_func npu end_func) (ec_inference_init code)
      (.before 0 masks (withBuffers code address d) trace) sem (images.map Image.set) t sem') :
    t.data = withBuffers code address (images.foldl (infer code start_func npu end_func) d) := by
  have unprepared := session.unprepared rfl
  rw [unprepared.result (polledSession_fromMemory images d trace)]
  rfl

/-- There is such a session, from any state of the semaphore. -/
theorem exists_session_relocated (images : List (Image D)) (d : Buffers × D) (sem : ℕ)
    (trace : List (CallbackCall Empty)) :
    ∃ t sem', Started.Session (fromMemory start_func npu end_func) (ec_inference_init code)
      (.before 0 masks (withBuffers code address d) trace) sem (images.map Image.set) t sem' := by
  induction images generalizing d sem trace with
  | nil => exact ⟨_, _, .nil _ _⟩
  | cons image images ih =>
      obtain ⟨ls, t, run, ended, same⟩ := Started.exists_done
        (s := .before 0 masks (image.set (withBuffers code address d)) trace)
        (ec_inference_init_set image d) (poll_infer image d masks trace)
        (done_Default _ _ _ masks _ _) sem
      obtain ⟨r, sem', later⟩ := ih (infer code start_func npu end_func d image)
        t.machine.wfe_sem (trace ++ callbacksOf_Default ++ callbacksOfReset)
      exact ⟨r, sem', .cons run ended (by rw [same, reset_before]) later⟩

/-- A session of three images, with an NPU that keeps the word of each inference that has the
address. The second buffer is not aligned. -/
theorem session_relocated_sample :
    ∃ t sem', Started.Session
      (fromMemory id (fun blob kept => kept ++ [blob[20]?.getD 0]) id)
      (ec_inference_init sampleInstrs)
      (.before 0 (fun _ _ => ⟨0, by decide⟩) (withBuffers sampleInstrs 64 (⟨0, 0⟩, [])) []) 0
      (([⟨0x34300000, id⟩, ⟨0x34300010, id⟩, ⟨0x34300020, id⟩] :
        List (Image (List ECInstr))).map Image.set) t sem' ∧
      t.data = withBuffers sampleInstrs 64
        (⟨0x34300020, 0x34300020⟩, [0x34300007, 0x34300007, 0x34300027]) := by
  obtain ⟨t, sem', session⟩ := exists_session_relocated _ _ _ _
  have word (buffer : ECAddr) :
      (relocatedBlob sampleInstrs buffer)[20]? = some (7 + buffer) := by
    have here : (blobWords sampleInstrs.1)[20]? = some 7 := by
      rw [blobWords, sampleInstrs, List.getElem?_cons_succ, List.getElem?_cons_succ,
        List.getElem?_replicate]
      rfl
    rw [relocatedBlob, List.getElem?_mapIdx, here]
    rfl
  refine ⟨t, sem', session, ?_⟩
  rw [session_relocated session]
  simp [infer, Image.prepared, word]

end Network
end PeopleDetection.EpochController
