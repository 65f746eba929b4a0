import PeopleDetection.Boxes

/-!
# The model's published results

The globals of `model.c` that outlive one inference, and the two functions that touch
them. What the network and its post-processing make of an image is a parameter of
`run_nn_from_sd_card`: the boxes in `pp_output`.
-/

namespace PeopleDetection

abbrev MAX_BOXES_LIMIT : Nat := 10

/-- The globals `detections`, `detections_nb` and `latest_inference_time`. -/
structure NnState (F : Type) where
  detections : Nat → OdPpOutBuffer F
  detections_nb : Int
  latest_inference_time : Int

variable {F : Type}

/-- `run_nn_from_sd_card`, for boxes `found` and two readings of the clock. -/
def run_nn_from_sd_card (found : List (OdPpOutBuffer F)) (t0 t1 : UInt32) (s : NnState F) :
    NnState F where
  latest_inference_time := i32 (t1 - t0).toNat
  detections_nb := min (found.length : Int) MAX_BOXES_LIMIT
  detections i := (found.take MAX_BOXES_LIMIT)[i]?.getD (s.detections i)

/-- `model_get_boxes`; the result lists the boxes it stores. -/
def model_get_boxes [Zero F] [CFloat F] (s : NnState F) (boxes_nb : Int) : List DBox :=
  if s.detections_nb < 0 then []
  else (List.range (min boxes_nb s.detections_nb).toNat).map fun i =>
    model_detection_to_box (s.detections i)

/-- An inference publishes the boxes that were found. -/
theorem detections_run_nn {found : List (OdPpOutBuffer F)} (t0 t1 : UInt32) (s : NnState F)
    (few : found.length ≤ MAX_BOXES_LIMIT) :
    let s' := run_nn_from_sd_card found t0 t1 s
    s'.detections_nb = found.length ∧ (List.range found.length).map s'.detections = found := by
  refine ⟨?_, List.ext_getElem ?_ ?_⟩
  · simp only [run_nn_from_sd_card, MAX_BOXES_LIMIT] at few ⊢
    omega
  · rw [List.length_map, List.length_range]
  · intro i _ hi
    simp only [List.getElem_map, List.getElem_range, run_nn_from_sd_card,
      List.take_of_length_le few, List.getElem?_eq_getElem hi, Option.getD_some]

/-- After an inference, `model_get_boxes` converts the boxes of that inference. -/
theorem model_get_boxes_run_nn [Zero F] [CFloat F] {found : List (OdPpOutBuffer F)} (t0 t1 : UInt32)
    (s : NnState F) (few : found.length ≤ MAX_BOXES_LIMIT) :
    model_get_boxes (run_nn_from_sd_card found t0 t1 s) MAX_BOXES_LIMIT =
      found.map model_detection_to_box := by
  obtain ⟨nb, boxes⟩ := detections_run_nn t0 t1 s few
  rw [model_get_boxes, nb, if_neg (by omega),
    show (min (MAX_BOXES_LIMIT : Int) found.length).toNat = found.length by omega]
  calc
    _ = ((List.range found.length).map (run_nn_from_sd_card found t0 t1 s).detections).map
        model_detection_to_box := by rw [List.map_map]; rfl
    _ = found.map model_detection_to_box := by rw [boxes]

end PeopleDetection
