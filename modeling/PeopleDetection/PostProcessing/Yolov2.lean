import PeopleDetection.Model
import PeopleDetection.PostProcessing.Memory

/-!
# Yolov2 post-processing

`od_yolov2_pp_process` decodes the output tensor of the network into records, suppresses
the less confident one of two overlapping boxes, keeps the first few, and copies these to
the output buffer. Without a scratch buffer the records lie in the tensor itself.

A pointer is a word address. The loops of the source are folds over their index ranges.
-/

namespace PeopleDetection

/-- The words of an anchor in the tensor. -/
abbrev OBJECTNESS : Nat := 4
abbrev CLASSPROB : Nat := 5

abbrev AI_OD_POSTPROCESS_ERROR : Int := -2

/-- `od_yolov2_pp_static_param_t`, without the number of detections of the last run. -/
structure OdYolov2PpStaticParam (F : Type) where
  nb_classes : Nat
  nb_anchors : Nat
  grid_width : Nat
  grid_height : Nat
  max_boxes_limit : Nat
  conf_threshold : F
  iou_threshold : F
  pAnchors : List F
  pScratchBuffer : Option Nat

/-- `od_pp_out_t`. -/
structure OdPpOut (F : Type) where
  pOutBuff : Nat → OdPpOutBuffer F
  nb_detect : Nat

/-- The boxes in the output buffer. -/
def OdPpOut.boxes {F : Type} (out : OdPpOut F) : List (OdPpOutBuffer F) :=
  (List.range out.nb_detect).map out.pOutBuff

/-- The variables of `yolov2_pp_getNNBoxes_centroid`. -/
structure Decoding (F : Type) where
  mem : Memory F
  count_detect : Nat
  el_offset : Nat

variable {F : Type} [Zero F] [CFloat F]

open CFloat

/-- `a == b`. -/
def feq (a b : F) : Prop := a ≤ b ∧ b ≤ a

instance instDecidableFeq (a b : F) : Decidable (feq a b) :=
  inferInstanceAs (Decidable (a ≤ b ∧ b ≤ a))

/-! ## Overlap of records -/

def overlap (x1 w1 x2 w2 : F) : F :=
  let l1 := x1 - w1 / ofInt 2
  let l2 := x2 - w2 / ofInt 2
  let left := if l2 < l1 then l1 else l2
  let r1 := x1 + w1 / ofInt 2
  let r2 := x2 + w2 / ofInt 2
  let right := if r1 < r2 then r1 else r2
  right - left

def box_intersection (a b : OdPpOutBuffer F) : F :=
  let w := overlap a.x_center a.width b.x_center b.width
  let h := overlap a.y_center a.height b.y_center b.height
  if w < 0 ∨ h < 0 then 0 else w * h

def box_union (a b : OdPpOutBuffer F) : F :=
  a.width * a.height + b.width * b.height - box_intersection a b

def vision_models_box_iou (a b : OdPpOutBuffer F) : F :=
  let I := box_intersection a b
  let U := box_union a b
  if feq I 0 ∨ feq U 0 then 0 else I / U

/-! ## Decoding -/

section Decode

variable (rt : Runtime F) (p : OdYolov2PpStaticParam F)

def vision_models_sigmoid_f (x : F) : F := ofInt 1 / (ofInt 1 + rt.expf (-x))

/-- The scalar version, for one row: the largest value and its first index. -/
def vision_models_maxi_p_if32ou32 (arr : Nat → F) (len_arr : Nat) : F × Nat :=
  (List.range' 1 (len_arr - 1)).foldl
    (fun best i => if best.1 < arr i then (arr i, i) else best) (arr 0, 0)

def anch_stride : Nat := p.nb_classes + CLASSPROB

def grid_width_inv : F := ofInt 1 / ofInt p.grid_width

def grid_height_inv : F := ofInt 1 / ofInt p.grid_height

def computedThreshold : F := -rt.logf (ofInt 1 / p.conf_threshold - ofInt 1)

/-- The centre and the size of a box from the words `v 0`, …, `v 3` of its anchor. -/
def x_center (col : Nat) (v : Nat → F) : F :=
  (ofInt col + vision_models_sigmoid_f rt (v 0)) * grid_width_inv p

def y_center (row : Nat) (v : Nat → F) : F :=
  (ofInt row + vision_models_sigmoid_f rt (v 1)) * grid_height_inv p

def box_width (anch : Nat) (v : Nat → F) : F :=
  p.pAnchors.getD (2 * anch) 0 * rt.expf (v 2) * grid_width_inv p

def box_height (anch : Nat) (v : Nat → F) : F :=
  p.pAnchors.getD (2 * anch + 1) 0 * rt.expf (v 3) * grid_height_inv p

variable (pInbuff pOutbuff : Nat)

/-- The words of the current anchor. -/
def anchorWords (s : Decoding F) (mem : Memory F) (k : Nat) : F :=
  rt.loadFloat mem (pInbuff + s.el_offset + k)

/-- The body of the innermost loop for a single class. -/
def singleClassAnchor (row col anch : Nat) (s : Decoding F) : Decoding F :=
  let v := anchorWords rt pInbuff s
  let box := pOutbuff + RECORD * s.count_detect
  let next := s.el_offset + anch_stride p
  if computedThreshold rt p ≤ v s.mem OBJECTNESS then
    let prob := vision_models_sigmoid_f rt (v s.mem OBJECTNESS)
    let mem := s.mem.store (box + CONF) (.float prob)
    let mem := mem.store (box + CLASS_INDEX) (.int 0)
    let mem := mem.store box (.float (x_center rt p col (v mem)))
    let mem := mem.store (box + 1) (.float (y_center rt p row (v mem)))
    let mem := mem.store (box + 2) (.float (box_width rt p anch (v mem)))
    let mem := mem.store (box + 3) (.float (box_height rt p anch (v mem)))
    ⟨mem, s.count_detect + 1, next⟩
  else { s with el_offset := next }

/-- The score of the best class, and its index. -/
def best_score (v : Nat → F) : F × Nat :=
  let best := vision_models_maxi_p_if32ou32 (fun i => v (CLASSPROB + i)) p.nb_classes
  let prob := vision_models_sigmoid_f rt (v OBJECTNESS)
  let sumf := (List.range p.nb_classes).foldl (fun sum i => sum + rt.expf (v (CLASSPROB + i))) 0
  (rt.expf best.1 / sumf * prob, best.2)

/-- The body of the innermost loop for any other number of classes. -/
def multiClassAnchor (row col anch : Nat) (s : Decoding F) : Decoding F :=
  let v := anchorWords rt pInbuff s
  let box := pOutbuff + RECORD * s.count_detect
  let next := s.el_offset + anch_stride p
  let best := best_score rt p (v s.mem)
  if p.conf_threshold ≤ best.1 then
    let mem := s.mem.store box (.float (x_center rt p col (v s.mem)))
    let mem := mem.store (box + 1) (.float (y_center rt p row (v mem)))
    let mem := mem.store (box + 2) (.float (box_width rt p anch (v mem)))
    let mem := mem.store (box + 3) (.float (box_height rt p anch (v mem)))
    let mem := mem.store (box + CONF) (.float best.1)
    let mem := mem.store (box + CLASS_INDEX) (.int best.2)
    ⟨mem, s.count_detect + 1, next⟩
  else { s with el_offset := next }

/-- The three loops over the grid and the anchors. -/
def yolov2_pp_getNNBoxes_centroid (mem : Memory F) : Decoding F :=
  (List.range p.grid_width).foldl (fun s row =>
    (List.range p.grid_height).foldl (fun s col =>
      (List.range p.nb_anchors).foldl (fun s anch =>
        if p.nb_classes = 1 then singleClassAnchor rt p pInbuff pOutbuff row col anch s
        else multiClassAnchor rt p pInbuff pOutbuff row col anch s) s) s) ⟨mem, 0, 0⟩

end Decode

/-! ## Suppression -/

/-- `yolov2_nms_comparator`, with `AI_YOLOV2_PP_SORT_CLASS` as `k`. -/
def yolov2_nms_comparator (k : Int) (pa pb : OdPpOutBuffer F) : Int :=
  let a := if pa.class_index = k then pa.conf else 0
  let b := if pb.class_index = k then pb.conf else 0
  let diff := a - b
  if diff < 0 then 1 else if 0 < diff then -1 else 0

section Nms

variable (rt : Runtime F) (p : OdYolov2PpStaticParam F) (scratch nb_detect : Nat)

/-- `pScratchBuffer[i]`. -/
def scratchRecord (mem : Memory F) (i : Nat) : OdPpOutBuffer F :=
  rt.loadRecord mem (scratch + RECORD * i)

/-- `pScratchBuffer[i].conf = 0`. -/
def dropRecord (mem : Memory F) (i : Nat) : Memory F :=
  mem.store (scratch + RECORD * i + CONF) (.float 0)

/-- The body of the inner loop: record `i` against record `j`. -/
def suppressRecord (i : Nat) (mem : Memory F) (j : Nat) : Memory F :=
  if feq (scratchRecord rt scratch mem j).conf 0 then mem
  else if p.iou_threshold < vision_models_box_iou (scratchRecord rt scratch mem i)
      (scratchRecord rt scratch mem j) then dropRecord scratch mem j
  else mem

/-- The body of the outer loop: record `i` against all behind it. -/
def suppressBehind (mem : Memory F) (i : Nat) : Memory F :=
  if feq (scratchRecord rt scratch mem i).conf 0 then mem
  else (List.range' (i + 1) (nb_detect - (i + 1))).foldl (suppressRecord rt p scratch i) mem

/-- The body of the loop that counts the remaining records. -/
def limitRecord (s : Memory F × Nat) (y : Nat) : Memory F × Nat :=
  if s.2 < p.max_boxes_limit ∧ ¬ feq (scratchRecord rt scratch s.1 y).conf 0 then (s.1, s.2 + 1)
  else (dropRecord scratch s.1 y, s.2)

/-- One class. The last loop also visits the record behind the last one. -/
def filterClass (mem : Memory F) (k : Nat) : Memory F :=
  let mem := mem.storeRecords scratch
    (rt.qsort (yolov2_nms_comparator k) (rt.loadRecords mem scratch 0 nb_detect))
  let mem := (List.range nb_detect).foldl (suppressBehind rt p scratch nb_detect) mem
  ((List.range (nb_detect + 1)).foldl (limitRecord rt p scratch) (mem, 0)).1

def yolov2_pp_nmsFiltering_centroid (mem : Memory F) : Memory F :=
  (List.range p.nb_classes).foldl (filterClass rt p scratch nb_detect) mem

/-- The body of the loop that copies the remaining records. -/
def copyRecord (mem : Memory F) (out : OdPpOut F) (i : Nat) : OdPpOut F :=
  if feq (scratchRecord rt scratch mem i).conf 0 then out
  else
    { pOutBuff := fun j =>
        if j = out.nb_detect then scratchRecord rt scratch mem i else out.pOutBuff j
      nb_detect := out.nb_detect + 1 }

def yolov2_pp_scoreFiltering_centroid (mem : Memory F) (pOutBuff : Nat → OdPpOutBuffer F) :
    OdPpOut F :=
  (List.range nb_detect).foldl (copyRecord rt scratch mem) ⟨pOutBuff, 0⟩

end Nms

/-! ## The whole -/

/-- `pScratchBuff`: the given buffer, or the tensor if a record fits into an anchor. -/
def scratchBuffer (p : OdYolov2PpStaticParam F) (pRaw_detections : Nat) : Option Nat :=
  match p.pScratchBuffer with
  | some scratch => some scratch
  | none => if RECORD ≤ CLASSPROB + p.nb_classes then some pRaw_detections else none

/-- The error code, and the memory and the output buffer afterwards. -/
def od_yolov2_pp_process (rt : Runtime F) (p : OdYolov2PpStaticParam F) (pRaw_detections : Nat)
    (mem : Memory F) (out : OdPpOut F) : Int × Memory F × OdPpOut F :=
  match scratchBuffer p pRaw_detections with
  | none => (AI_OD_POSTPROCESS_ERROR, mem, out)
  | some scratch =>
      let s := yolov2_pp_getNNBoxes_centroid rt p pRaw_detections scratch mem
      let mem := yolov2_pp_nmsFiltering_centroid rt p scratch s.count_detect s.mem
      (0, mem, yolov2_pp_scoreFiltering_centroid rt scratch s.count_detect mem out.pOutBuff)

/-! ## The parameters of the firmware -/

/-- `AI_OD_YOLOV2_PP_ANCHORS`. -/
def AI_OD_YOLOV2_PP_ANCHORS : List F :=
  [76023, 258508, 163031, 413531, 234769, 702585, 427054, 715892, 748154, 857092].map
    fun n => ofInt n / ofInt 1000000

/-- `pp_params` after `nn_init`. -/
def pp_params : OdYolov2PpStaticParam F where
  nb_classes := 1
  nb_anchors := 5
  grid_width := 7
  grid_height := 7
  max_boxes_limit := MAX_BOXES_LIMIT
  conf_threshold := half
  iou_threshold := half
  pAnchors := AI_OD_YOLOV2_PP_ANCHORS
  pScratchBuffer := none

end PeopleDetection
