import Mathlib.Analysis.SpecialFunctions.Log.Basic
import PeopleDetection.PostProcessing.Decode
import PeopleDetection.PostProcessing.Nms

/-!
# The published detections

Over the real numbers, the detections that an inference publishes are the greedy choice
among the boxes of the output tensor, taken by decreasing confidence and cut to ten.
-/

namespace PeopleDetection

open Library

noncomputable instance instCFloatReal : CFloat ℝ where
  ofInt n := n
  toInt := saturate

/-! ## The laws -/

/-- What `qsort` asks of a comparator. -/
structure Comparator {α : Type} (cmp : α → α → Int) : Prop where
  total : ∀ a b, cmp a b ≤ 0 ∨ cmp b a ≤ 0
  trans : ∀ a b c, cmp a b ≤ 0 → cmp b c ≤ 0 → cmp a c ≤ 0

/-- The laws of the exponential function, the logarithm and the sort. -/
structure Runtime.Exact (rt : Runtime ℝ) : Prop where
  expf_strictMono : StrictMono rt.expf
  expf_pos : ∀ x, 0 < rt.expf x
  expf_logf : ∀ x, 0 < x → rt.expf (rt.logf x) = x
  qsort_perm : ∀ cmp l, Comparator cmp → (rt.qsort cmp l).Perm l
  qsort_sorted : ∀ cmp l, Comparator cmp → (rt.qsort cmp l).Pairwise fun a b => cmp a b ≤ 0

/-! ## The comparator -/

/-- What the comparator compares. -/
noncomputable def sortKey (k : Int) (r : OdPpOutBuffer ℝ) : ℝ :=
  if r.class_index = k then r.conf else 0

theorem yolov2_nms_comparator_nonpos_iff (k : Int) (a b : OdPpOutBuffer ℝ) :
    yolov2_nms_comparator k a b ≤ 0 ↔ sortKey k b ≤ sortKey k a := by
  change (if sortKey k a - sortKey k b < 0 then (1 : Int)
    else if 0 < sortKey k a - sortKey k b then -1 else 0) ≤ 0 ↔ _
  by_cases less : sortKey k a - sortKey k b < 0
  · rw [if_pos less]
    exact ⟨fun h => absurd h (by decide), fun h => absurd less (not_lt.mpr (sub_nonneg.mpr h))⟩
  · rw [if_neg less]
    refine ⟨fun _ => sub_nonneg.mp (not_lt.mp less), fun _ => ?_⟩
    split <;> decide

theorem comparator_yolov2_nms_comparator (k : Int) :
    Comparator (yolov2_nms_comparator (F := ℝ) k) where
  total a b := by
    simp only [yolov2_nms_comparator_nonpos_iff]
    exact le_total _ _
  trans a b c := by
    simp only [yolov2_nms_comparator_nonpos_iff]
    exact fun ab bc => bc.trans ab

/-! ## The threshold -/

section Threshold

variable {rt : Runtime ℝ} (exact : rt.Exact)

include exact

/-- The threshold on the raw objectness is the threshold on its sigmoid. -/
theorem computedThreshold_le_iff (x : ℝ) :
    computedThreshold rt pp_params ≤ x ↔ half ≤ vision_models_sigmoid_f rt x := by
  have one : rt.expf (rt.logf 1) = 1 := exact.expf_logf 1 one_pos
  have pos := exact.expf_pos (-x)
  have threshold : computedThreshold rt pp_params = -rt.logf 1 := by
    change -rt.logf (((1 : Int) : ℝ) / (((1 : Int) : ℝ) / ((2 : Int) : ℝ)) - ((1 : Int) : ℝ)) = _
    norm_num
  have sigmoid : vision_models_sigmoid_f rt x = 1 / (1 + rt.expf (-x)) := by
    change ((1 : Int) : ℝ) / (((1 : Int) : ℝ) + rt.expf (-x)) = _
    norm_num
  have middle : (half : ℝ) = 1 / 2 := by
    change ((1 : Int) : ℝ) / ((2 : Int) : ℝ) = _
    norm_num
  rw [threshold, sigmoid, middle, div_le_div_iff₀ two_pos (by linarith)]
  calc
    -rt.logf 1 ≤ x ↔ -x ≤ rt.logf 1 := neg_le
    _ ↔ rt.expf (-x) ≤ rt.expf (rt.logf 1) := exact.expf_strictMono.le_iff_le.symm
    _ ↔ 1 * (1 + rt.expf (-x)) ≤ 1 * 2 := by
      rw [one]
      constructor <;> intro h <;> linarith

end Threshold

/-! ## The candidates -/

/-- The boxes of the anchors of a tensor whose objectness is at least one half. -/
noncomputable def candidates (rt : Runtime ℝ) (tensor : Nat → ℝ) : List (OdPpOutBuffer ℝ) :=
  (List.range 7).flatMap fun row => (List.range 7).flatMap fun col =>
    (List.range 5).flatMap fun anch =>
      let v := fun k => tensor (6 * ((row * 7 + col) * 5 + anch) + k)
      let objectness := vision_models_sigmoid_f rt (v 4)
      if half ≤ objectness then
        [⟨x_center rt pp_params col v, y_center rt pp_params row v, box_width rt pp_params anch v,
          box_height rt pp_params anch v, objectness, 0⟩]
      else []

section Published

variable {rt : Runtime ℝ} (exact : rt.Exact)

theorem mem_candidates {tensor : Nat → ℝ} {r : OdPpOutBuffer ℝ} (h : r ∈ candidates rt tensor) :
    half ≤ r.conf ∧ r.class_index = 0 := by
  simp only [candidates, List.mem_flatMap] at h
  obtain ⟨row, -, col, -, anch, -, h⟩ := h
  split at h
  · next confident =>
      rw [List.mem_singleton] at h
      subst h
      exact ⟨confident, rfl⟩
  · cases h

include exact

theorem decoded_pp_params (tensor : Nat → ℝ) :
    decoded rt pp_params tensor = candidates rt tensor := by
  rw [decoded, candidates]
  congr 1
  funext row
  congr 1
  funext col
  congr 1
  funext anch
  rw [anchorBox, if_pos (show (pp_params : OdYolov2PpStaticParam ℝ).nb_classes = 1 from rfl)]
  simp only [computedThreshold_le_iff exact]
  split
  · next confident => exact (if_pos confident).symm
  · next weak => exact (if_neg weak).symm

/-- The candidates, sorted as `qsort` sorts them. -/
noncomputable def sortedCandidates (rt : Runtime ℝ) (tensor : Nat → ℝ) :
    List (OdPpOutBuffer ℝ) :=
  rt.qsort (yolov2_nms_comparator 0) (candidates rt tensor)

theorem perm_sortedCandidates (tensor : Nat → ℝ) :
    (sortedCandidates rt tensor).Perm (candidates rt tensor) :=
  exact.qsort_perm _ _ (comparator_yolov2_nms_comparator 0)

theorem pairwise_sortedCandidates (tensor : Nat → ℝ) :
    (sortedCandidates rt tensor).Pairwise fun a b => b.conf ≤ a.conf := by
  have sorted := exact.qsort_sorted _ (candidates rt tensor) (comparator_yolov2_nms_comparator 0)
  refine sorted.imp_of_mem ?_
  intro a b ha hb le
  have person : ∀ r ∈ sortedCandidates rt tensor, sortKey 0 r = r.conf := fun r hr =>
    if_pos (mem_candidates ((perm_sortedCandidates exact tensor).mem_iff.mp hr)).2
  rwa [yolov2_nms_comparator_nonpos_iff, person a ha, person b hb] at le

/-- Every candidate is alive. -/
theorem filter_sortedCandidates (tensor : Nat → ℝ) :
    ((sortedCandidates rt tensor).filter fun r => Alive r) = sortedCandidates rt tensor := by
  rw [List.filter_eq_self]
  intro r hr
  have conf := (mem_candidates ((perm_sortedCandidates exact tensor).mem_iff.mp hr)).1
  have pos : (0 : ℝ) < half := by
    change (0 : ℝ) < ((1 : Int) : ℝ) / ((2 : Int) : ℝ)
    norm_num
  exact decide_eq_true fun zero : feq r.conf 0 => absurd (pos.trans_le conf) (not_lt.mpr zero.1)

/-- What post-processing leaves in the output buffer. -/
theorem boxes_process (mem : Memory ℝ) (base : Nat) (out : OdPpOut ℝ) :
    let result := od_yolov2_pp_process rt pp_params base mem out
    result.1 = 0 ∧ result.2.2.boxes = (greedy (Suppresses pp_params)
      (sortedCandidates rt fun k => rt.loadFloat mem (base + k))).take 10 := by
  have scratch : scratchBuffer (pp_params : OdYolov2PpStaticParam ℝ) base = some base := rfl
  have dead : ∀ r : OdPpOutBuffer ℝ, ¬ Alive r.drop := fun r alive =>
    alive ⟨le_refl 0, le_refl 0⟩
  have length : ∀ (k : Int) l, (rt.qsort (yolov2_nms_comparator k) l).length = l.length :=
    fun k l => (exact.qsort_perm _ l (comparator_yolov2_nms_comparator k)).length_eq
  obtain ⟨-, found⟩ := yolov2_pp_getNNBoxes_centroid_inPlace rt
    (pp_params : OdYolov2PpStaticParam ℝ) (by decide) mem base
  rw [od_yolov2_pp_process, scratch]
  refine ⟨rfl, ?_⟩
  dsimp only
  rw [boxes_scoreFiltering, loadRecords_nmsFiltering rt pp_params base length, found,
    decoded_pp_params exact]
  change (filteredClass rt pp_params (candidates rt _) 0).filter (fun r => Alive r) = _
  rw [filteredClass, filter_cut _ dead, filter_sweep _ _ dead]
  exact congrArg (fun l => (greedy (Suppresses pp_params) l).take 10)
    (filter_sortedCandidates exact _)

/-- The published detections are the first ten boxes of a greedy suppression, over some
order of the candidates by decreasing confidence, and these are the boxes that
`model_get_boxes` converts. -/
theorem published_detections_greedy (mem : Memory ℝ) (base : Nat) (out : OdPpOut ℝ)
    (t0 t1 : UInt32) (s : NnState ℝ) :
    let result := od_yolov2_pp_process rt pp_params base mem out
    let s' := run_nn_from_sd_card result.2.2.boxes t0 t1 s
    result.1 = 0 ∧ ∃ order : List (OdPpOutBuffer ℝ),
      order.Perm (candidates rt fun k => rt.loadFloat mem (base + k)) ∧
      order.Pairwise (fun a b => b.conf ≤ a.conf) ∧
      let kept := greedy (Suppresses pp_params) order
      s'.detections_nb = min kept.length 10 ∧
        (List.range s'.detections_nb.toNat).map s'.detections = kept.take 10 ∧
        model_get_boxes s' 10 = (kept.take 10).map model_detection_to_box := by
  intro result s'
  obtain ⟨done, boxes⟩ := boxes_process exact mem base out
  set order := sortedCandidates rt fun k => rt.loadFloat mem (base + k)
  have few : result.2.2.boxes.length ≤ MAX_BOXES_LIMIT := by
    rw [boxes, List.length_take]
    exact min_le_left _ _
  obtain ⟨nb, published⟩ := detections_run_nn t0 t1 s few
  refine ⟨done, order, perm_sortedCandidates exact _, pairwise_sortedCandidates exact _, ?_, ?_, ?_⟩
  · rw [nb, boxes, List.length_take, min_comm]
  · rw [nb, Int.toNat_natCast, published, boxes]
  · rw [← boxes]
    exact model_get_boxes_run_nn t0 t1 s few

end Published

/-! ## A runtime -/

/-- The real exponential function and logarithm, with a merge sort. -/
noncomputable def Runtime.real : Runtime ℝ where
  expf := Real.exp
  logf := Real.log
  qsort cmp l := l.mergeSort fun a b => cmp a b ≤ 0
  floatOfBits n := n
  bitsOfFloat x := ⌊x⌋

theorem Runtime.real_exact : Runtime.real.Exact where
  expf_strictMono := Real.exp_strictMono
  expf_pos := Real.exp_pos
  expf_logf _ := Real.exp_log
  qsort_perm cmp l _ := List.mergeSort_perm l _
  qsort_sorted cmp l consistent := by
    have sorted : (l.mergeSort fun a b => decide (cmp a b ≤ 0)).Pairwise
        fun a b => decide (cmp a b ≤ 0) = true :=
      List.pairwise_mergeSort
        (fun a b c ab bc => decide_eq_true
          (consistent.trans a b c (of_decide_eq_true ab) (of_decide_eq_true bc)))
        (fun a b => by simpa using consistent.total a b) l
    exact sorted.imp of_decide_eq_true

/-- The theorem for a tensor of zeros, where every objectness is one half. -/
theorem published_detections_greedy_zero :
    let result := od_yolov2_pp_process Runtime.real pp_params 0 (fun _ => .float 0)
      ⟨fun _ => ⟨0, 0, 0, 0, 0, 0⟩, 0⟩
    let s' := run_nn_from_sd_card result.2.2.boxes 0 1 ⟨fun _ => ⟨0, 0, 0, 0, 0, 0⟩, 0, 0⟩
    result.1 = 0 ∧ ∃ order : List (OdPpOutBuffer ℝ),
      order.Perm (candidates Runtime.real
        fun k => Runtime.real.loadFloat (fun _ => .float 0) (0 + k)) ∧
      order.Pairwise (fun a b => b.conf ≤ a.conf) ∧
      let kept := greedy (Suppresses pp_params) order
      s'.detections_nb = min kept.length 10 ∧
        (List.range s'.detections_nb.toNat).map s'.detections = kept.take 10 ∧
        model_get_boxes s' 10 = (kept.take 10).map model_detection_to_box :=
  published_detections_greedy Runtime.real_exact _ _ _ _ _ _

end PeopleDetection
