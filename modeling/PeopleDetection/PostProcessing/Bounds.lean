import PeopleDetection.PostProcessing.Published

/-!
# The bounds of post-processing

`run_nn_from_sd_card` behind the inference once more, with every access checked: words
against the tensor in `nn_out`, entries against `pp_detections_buffer`, `detections` and the
table of anchors. A function returns `none` when it makes an access outside, and otherwise
what it computes. The namespace keeps the names of the functions that are checked.
-/

namespace PeopleDetection.Checked

open Library

/-- The words of `nn_out`, of 7 rows, 7 columns and 30 channels, and its records. -/
abbrev NN_OUT_WORDS : Nat := 1470
abbrev NN_OUT_RECORDS : Nat := 245

/-- An access to the `n` words at `addr`. -/
def access (nn_out addr n : Nat) : Option Unit :=
  if nn_out ≤ addr ∧ addr + n ≤ nn_out + NN_OUT_WORDS then some () else none

/-- An access to entry `i` of an array of `n`. -/
def entry (i n : Nat) : Option Unit := if i < n then some () else none

variable {F : Type} [Zero F] [CFloat F]

/-! ## Decoding -/

section Decode

variable (rt : Runtime F) (p : OdYolov2PpStaticParam F) (nn_out pInbuff pOutbuff : Nat)

/-- Reading the box of the current anchor, and storing it as a record. -/
def storeBox (anch : Nat) (s : Decoding F) : Option Unit := do
  access nn_out (pInbuff + s.el_offset) 4
  entry (2 * anch + 1) p.pAnchors.length
  access nn_out (pOutbuff + RECORD * s.count_detect) RECORD

/-- The body of the innermost loop for a single class. -/
def singleClassAnchor (row col anch : Nat) (s : Decoding F) : Option (Decoding F) := do
  access nn_out (pInbuff + s.el_offset + OBJECTNESS) 1
  if computedThreshold rt p ≤ anchorWords rt pInbuff s s.mem OBJECTNESS then do
    storeBox p nn_out pInbuff pOutbuff anch s
    some (PeopleDetection.singleClassAnchor rt p pInbuff pOutbuff row col anch s)
  else some (PeopleDetection.singleClassAnchor rt p pInbuff pOutbuff row col anch s)

/-- The body of the innermost loop for any other number of classes. -/
def multiClassAnchor (row col anch : Nat) (s : Decoding F) : Option (Decoding F) := do
  access nn_out (pInbuff + s.el_offset + OBJECTNESS) (1 + max 1 p.nb_classes)
  if p.conf_threshold ≤ (best_score rt p (anchorWords rt pInbuff s s.mem)).1 then do
    storeBox p nn_out pInbuff pOutbuff anch s
    some (PeopleDetection.multiClassAnchor rt p pInbuff pOutbuff row col anch s)
  else some (PeopleDetection.multiClassAnchor rt p pInbuff pOutbuff row col anch s)

def yolov2_pp_getNNBoxes_centroid (mem : Memory F) : Option (Decoding F) :=
  (List.range p.grid_width).foldlM (fun s row =>
    (List.range p.grid_height).foldlM (fun s col =>
      (List.range p.nb_anchors).foldlM (fun s anch =>
        if p.nb_classes = 1 then singleClassAnchor rt p nn_out pInbuff pOutbuff row col anch s
        else multiClassAnchor rt p nn_out pInbuff pOutbuff row col anch s) s) s) ⟨mem, 0, 0⟩

end Decode

/-! ## Suppression -/

section Nms

variable (rt : Runtime F) (p : OdYolov2PpStaticParam F) (nn_out scratch nb_detect : Nat)

/-- `pScratchBuffer[i].conf`. -/
def accessConf (i : Nat) : Option Unit := access nn_out (scratch + RECORD * i + CONF) 1

/-- The four words of `pScratchBuffer[i]` that make its box. -/
def accessBox (i : Nat) : Option Unit := access nn_out (scratch + RECORD * i) 4

/-- The body of the inner loop. -/
def suppressRecord (i : Nat) (mem : Memory F) (j : Nat) : Option (Memory F) := do
  accessConf nn_out scratch j
  if feq (scratchRecord rt scratch mem j).conf 0 then some mem
  else do
    accessBox nn_out scratch i
    accessBox nn_out scratch j
    if p.iou_threshold < vision_models_box_iou (scratchRecord rt scratch mem i)
        (scratchRecord rt scratch mem j) then do
      accessConf nn_out scratch j
      some (dropRecord scratch mem j)
    else some mem

/-- The body of the outer loop. -/
def suppressBehind (mem : Memory F) (i : Nat) : Option (Memory F) := do
  accessConf nn_out scratch i
  if feq (scratchRecord rt scratch mem i).conf 0 then some mem
  else
    (List.range' (i + 1) (nb_detect - (i + 1))).foldlM (suppressRecord rt p nn_out scratch i) mem

/-- The body of the loop that counts. A full counter skips the read of the condition. -/
def limitRecord (s : Memory F × Nat) (y : Nat) : Option (Memory F × Nat) :=
  if s.2 < p.max_boxes_limit then do
    accessConf nn_out scratch y
    if feq (scratchRecord rt scratch s.1 y).conf 0 then do
      accessConf nn_out scratch y
      some (dropRecord scratch s.1 y, s.2)
    else some (s.1, s.2 + 1)
  else do
    accessConf nn_out scratch y
    some (dropRecord scratch s.1 y, s.2)

/-- One class. The sort stays within the records. -/
def filterClass (mem : Memory F) (k : Nat) : Option (Memory F) := do
  access nn_out scratch (RECORD * nb_detect)
  let mem := mem.storeRecords scratch
    (rt.qsort (yolov2_nms_comparator k) (rt.loadRecords mem scratch 0 nb_detect))
  let mem ← (List.range nb_detect).foldlM (suppressBehind rt p nn_out scratch nb_detect) mem
  let s ← (List.range (nb_detect + 1)).foldlM (limitRecord rt p nn_out scratch) (mem, 0)
  some s.1

def yolov2_pp_nmsFiltering_centroid (mem : Memory F) : Option (Memory F) :=
  (List.range p.nb_classes).foldlM (filterClass rt p nn_out scratch nb_detect) mem

/-- The body of the loop that copies. -/
def copyRecord (mem : Memory F) (out : OdPpOut F) (i : Nat) : Option (OdPpOut F) := do
  accessConf nn_out scratch i
  if feq (scratchRecord rt scratch mem i).conf 0 then some out
  else do
    access nn_out (scratch + RECORD * i) RECORD
    entry out.nb_detect MAX_BOXES_LIMIT
    some (PeopleDetection.copyRecord rt scratch mem out i)

def yolov2_pp_scoreFiltering_centroid (mem : Memory F) (pOutBuff : Nat → OdPpOutBuffer F) :
    Option (OdPpOut F) :=
  (List.range nb_detect).foldlM (copyRecord rt nn_out scratch mem) ⟨pOutBuff, 0⟩

end Nms

/-! ## The whole -/

section Whole

variable (rt : Runtime F) (nn_out : Nat)

def od_yolov2_pp_process (p : OdYolov2PpStaticParam F) (pRaw_detections : Nat) (mem : Memory F)
    (out : OdPpOut F) : Option (Int × Memory F × OdPpOut F) :=
  match scratchBuffer p pRaw_detections with
  | none => some (AI_OD_POSTPROCESS_ERROR, mem, out)
  | some scratch => do
      let s ← yolov2_pp_getNNBoxes_centroid rt p nn_out pRaw_detections scratch mem
      let mem ← yolov2_pp_nmsFiltering_centroid rt p nn_out scratch s.count_detect s.mem
      let out ← yolov2_pp_scoreFiltering_centroid rt nn_out scratch s.count_detect mem out.pOutBuff
      some (0, mem, out)

/-- `detections[i] = pp_output.pOutBuff[i]`; both arrays have ten entries. -/
def storeDetection (out : OdPpOut F) (s : NnState F) (i : Nat) : Option (NnState F) := do
  entry i MAX_BOXES_LIMIT
  some { s with detections := fun j => if j = i then out.pOutBuff i else s.detections j }

/-- `run_nn_from_sd_card` after the inference, which ran from `t0` to `t1` and left `mem`. -/
def run_nn_from_sd_card (mem : Memory F) (pp_output : OdPpOut F) (t0 t1 : UInt32) (s : NnState F) :
    Option (NnState F) := do
  let result ← od_yolov2_pp_process rt nn_out pp_params nn_out mem pp_output
  let out := result.2.2
  let nb := min out.nb_detect MAX_BOXES_LIMIT
  (List.range nb).foldlM (storeDetection out)
    { s with latest_inference_time := i32 (t1 - t0).toNat, detections_nb := nb }

end Whole

/-! ## Accesses to records -/

variable {nn_out i j n : Nat}

theorem access_eq {addr : Nat} (lo : nn_out ≤ addr) (hi : addr + n ≤ nn_out + NN_OUT_WORDS) :
    access nn_out addr n = some () :=
  if_pos ⟨lo, hi⟩

theorem entry_eq (h : i < n) : entry i n = some () := if_pos h

theorem accessConf_eq (h : i < NN_OUT_RECORDS) : accessConf nn_out nn_out i = some () := by
  simp only [NN_OUT_RECORDS] at h
  apply access_eq <;> simp only [RECORD, CONF, NN_OUT_WORDS] <;> omega

theorem accessBox_eq (h : i < NN_OUT_RECORDS) : accessBox nn_out nn_out i = some () := by
  simp only [NN_OUT_RECORDS] at h
  apply access_eq <;> simp only [RECORD, NN_OUT_WORDS] <;> omega

theorem accessRecord_eq (h : i < NN_OUT_RECORDS) :
    access nn_out (nn_out + RECORD * i) RECORD = some () := by
  simp only [NN_OUT_RECORDS] at h
  apply access_eq <;> simp only [RECORD, NN_OUT_WORDS] <;> omega

/-- There is no record behind the last one. -/
theorem accessConf_eq_none : accessConf nn_out nn_out NN_OUT_RECORDS = none := by
  apply if_neg
  simp only [RECORD, CONF, NN_OUT_WORDS, NN_OUT_RECORDS]
  omega

/-! ## Suppression within the records -/

section Suppression

variable (rt : Runtime F) (p : OdYolov2PpStaticParam F)

theorem suppressRecord_eq (hi : i < NN_OUT_RECORDS) (hj : j < NN_OUT_RECORDS) (mem : Memory F) :
    suppressRecord rt p nn_out nn_out i mem j =
      some (PeopleDetection.suppressRecord rt p nn_out i mem j) := by
  rw [suppressRecord, PeopleDetection.suppressRecord]
  simp only [accessConf_eq hj, accessBox_eq hi, accessBox_eq hj, bind, Option.bind_some]
  split_ifs <;> rfl

theorem suppressBehind_eq (hn : n ≤ NN_OUT_RECORDS) (hi : i < n) (mem : Memory F) :
    suppressBehind rt p nn_out nn_out n mem i =
      some (PeopleDetection.suppressBehind rt p nn_out n mem i) := by
  have inner : ∀ j ∈ List.range' (i + 1) (n - (i + 1)), ∀ mem : Memory F,
      suppressRecord rt p nn_out nn_out i mem j =
        some (PeopleDetection.suppressRecord rt p nn_out i mem j) := by
    intro j hj mem
    rw [List.mem_range'_1] at hj
    exact suppressRecord_eq rt p (hi.trans_le hn) (by omega) mem
  rw [suppressBehind, PeopleDetection.suppressBehind, foldlM_eq_some inner]
  simp only [accessConf_eq (hi.trans_le hn), bind, Option.bind_some]
  split <;> rfl

theorem limitRecord_eq (hi : i < NN_OUT_RECORDS) (s : Memory F × Nat) :
    limitRecord rt p nn_out nn_out s i = some (PeopleDetection.limitRecord rt p nn_out s i) := by
  rw [limitRecord, PeopleDetection.limitRecord]
  simp only [accessConf_eq hi, bind, Option.bind_some]
  by_cases room : s.2 < p.max_boxes_limit
  · by_cases dead : feq (scratchRecord rt nn_out s.1 i).conf 0
    · rw [if_pos room, if_pos dead, if_neg fun h => h.2 dead]
    · rw [if_pos room, if_neg dead, if_pos ⟨room, dead⟩]
  · rw [if_neg room, if_neg fun h => room h.1]

/-- Whatever its branch, the loop that counts stores or loads the confidence. -/
theorem limitRecord_eq_none (s : Memory F × Nat) :
    limitRecord rt p nn_out nn_out s NN_OUT_RECORDS = none := by
  rw [limitRecord]
  simp only [accessConf_eq_none, bind, Option.bind_none, ite_self]

/-- The sort and the double loop stay within the records. -/
theorem filterClass_eq_bind (nn_out : Nat) (hn : n ≤ NN_OUT_RECORDS) (mem : Memory F) (k : Nat) :
    ∃ mem', filterClass rt p nn_out nn_out n mem k =
        ((List.range (n + 1)).foldlM (limitRecord rt p nn_out nn_out) (mem', 0)).bind
          (fun s => some s.1) ∧
      PeopleDetection.filterClass rt p nn_out n mem k =
        ((List.range (n + 1)).foldl (PeopleDetection.limitRecord rt p nn_out) (mem', 0)).1 := by
  refine ⟨_, ?_, rfl⟩
  have sorted : access nn_out nn_out (RECORD * n) = some () := by
    simp only [NN_OUT_RECORDS] at hn
    apply access_eq (Nat.le_refl _)
    simp only [RECORD, NN_OUT_WORDS]
    omega
  rw [filterClass, sorted]
  simp only [bind, Option.bind_some]
  rw [foldlM_eq_some fun i hi mem => suppressBehind_eq rt p hn (List.mem_range.mp hi) mem]
  rfl

/-- With a record to spare, the filter stays within the records. -/
theorem filterClass_eq (hn : n < NN_OUT_RECORDS) (mem : Memory F) (k : Nat) :
    filterClass rt p nn_out nn_out n mem k =
      some (PeopleDetection.filterClass rt p nn_out n mem k) := by
  obtain ⟨mem', bound, eq⟩ := filterClass_eq_bind rt p nn_out hn.le mem k
  rw [bound, eq, foldlM_eq_some fun i hi s => limitRecord_eq rt p
    ((Nat.le_of_lt_succ (List.mem_range.mp hi)).trans_lt hn) s]
  rfl

/-- With as many records as anchors, the loop that counts leaves the tensor. -/
theorem filterClass_eq_none (mem : Memory F) (k : Nat) :
    filterClass rt p nn_out nn_out NN_OUT_RECORDS mem k = none := by
  obtain ⟨mem', bound, -⟩ := filterClass_eq_bind rt p nn_out (Nat.le_refl _) mem k
  rw [bound, foldlM_range_succ_eq_none (limitRecord_eq_none rt p)]
  rfl

theorem yolov2_pp_nmsFiltering_centroid_eq (hn : n < NN_OUT_RECORDS) (mem : Memory F) :
    yolov2_pp_nmsFiltering_centroid rt p nn_out nn_out n mem =
      some (PeopleDetection.yolov2_pp_nmsFiltering_centroid rt p nn_out n mem) :=
  foldlM_eq_some (fun k _ mem => filterClass_eq rt p hn mem k) mem

end Suppression

/-! ## Decoding within the tensor -/

section Decoding

variable (rt : Runtime F)

/-- The objectness of anchor `e` passes the threshold. -/
def Fires (mem : Memory F) (nn_out e : Nat) : Prop :=
  computedThreshold rt pp_params ≤ rt.loadFloat mem (nn_out + (RECORD * e + OBJECTNESS))

instance instDecidablePredFires (mem : Memory F) (nn_out : Nat) :
    DecidablePred (Fires rt mem nn_out) :=
  fun _ => CFloat.instDecidableLE _ _

/-- The decoder has read `e` anchors, and has as many boxes only if all of them fire. -/
def HasRead (mem : Memory F) (nn_out e : Nat) (s : Decoding F) : Prop :=
  ∃ found, Decoded rt pp_params mem nn_out e found s ∧
    (found.length = e ↔ ∀ k < e, Fires rt mem nn_out k)

variable {rt} {mem : Memory F} {e : Nat} {s : Decoding F}

theorem anchorBox_eq_none_iff (rt : Runtime F) (mem : Memory F) (nn_out e row col anch : Nat) :
    anchorBox rt pp_params row col anch
      (tensorWords pp_params (fun k => rt.loadFloat mem (nn_out + k)) e) = none ↔
      ¬ Fires rt mem nn_out e := by
  have threshold : computedThreshold rt pp_params ≤
      tensorWords pp_params (fun k => rt.loadFloat mem (nn_out + k)) e OBJECTNESS ↔
      Fires rt mem nn_out e := Iff.rfl
  rw [anchorBox, if_pos (show (pp_params : OdYolov2PpStaticParam F).nb_classes = 1 from rfl)]
  by_cases h : Fires rt mem nn_out e
  · rw [if_pos (threshold.mpr h)]
    simp [h]
  · rw [if_neg fun passes => h (threshold.mp passes)]
    simp [h]

/-- One turn of the innermost loop. -/
theorem HasRead.turn (h : HasRead rt mem nn_out e s) (he : e < NN_OUT_RECORDS) (row col : Nat)
    {anch : Nat} (ha : anch < 5) :
    singleClassAnchor rt pp_params nn_out nn_out nn_out row col anch s =
        some (PeopleDetection.singleClassAnchor rt pp_params nn_out nn_out row col anch s) ∧
      HasRead rt mem nn_out (e + 1)
        (PeopleDetection.singleClassAnchor rt pp_params nn_out nn_out row col anch s) := by
  obtain ⟨found, decoded, all⟩ := h
  have offset : s.el_offset = 6 * e := decoded.el_offset
  have count := decoded.count
  have le := decoded.le
  simp only [NN_OUT_RECORDS] at he
  constructor
  · have objectness : access nn_out (nn_out + s.el_offset + OBJECTNESS) 1 = some () := by
      apply access_eq <;> simp only [OBJECTNESS, NN_OUT_WORDS] <;> omega
    have stored : storeBox (pp_params : OdYolov2PpStaticParam F) nn_out nn_out nn_out anch s =
        some () := by
      have box : access nn_out (nn_out + s.el_offset) 4 = some () := by
        apply access_eq (Nat.le_add_right _ _)
        simp only [NN_OUT_WORDS]
        omega
      have anchors : entry (2 * anch + 1)
          (pp_params : OdYolov2PpStaticParam F).pAnchors.length = some () :=
        entry_eq (show 2 * anch + 1 < 10 by omega)
      rw [storeBox, box, anchors]
      exact accessRecord_eq (count ▸ le.trans_lt he)
    rw [singleClassAnchor, objectness, stored]
    exact ite_self _
  · refine ⟨_, decoded.decodeAnchor (Nat.le_refl 6) row col anch, ?_⟩
    have box := anchorBox_eq_none_iff rt mem nn_out e row col anch
    rw [List.length_append, Nat.forall_lt_succ_right, ← all]
    cases hb : anchorBox rt pp_params row col anch
        (tensorWords pp_params (fun k => rt.loadFloat mem (nn_out + k)) e) with
    | none =>
        have weak := box.mp hb
        rw [Option.toList_none, List.length_nil]
        exact ⟨fun full => by omega, fun full => absurd full.2 weak⟩
    | some r =>
        have fires : Fires rt mem nn_out e := not_not.mp fun weak => by
          rw [box.mpr weak] at hb
          cases hb
        rw [Option.toList_some, List.length_singleton]
        exact ⟨fun full => ⟨by omega, fires⟩, fun full => by omega⟩

/-- The loops over the grid read every anchor of the tensor, and nothing else. -/
theorem yolov2_pp_getNNBoxes_centroid_eq (rt : Runtime F) (nn_out : Nat) (mem : Memory F) :
    yolov2_pp_getNNBoxes_centroid rt pp_params nn_out nn_out nn_out mem =
        some (PeopleDetection.yolov2_pp_getNNBoxes_centroid rt pp_params nn_out nn_out mem) ∧
      HasRead rt mem nn_out NN_OUT_RECORDS
        (PeopleDetection.yolov2_pp_getNNBoxes_centroid rt pp_params nn_out nn_out mem) := by
  have anchors (row col e : Nat) (he : e + 5 ≤ NN_OUT_RECORDS) (s : Decoding F)
      (h : HasRead rt mem nn_out e s) :=
    foldlM_range_eq_some (P := HasRead rt mem nn_out) (a := e) (m := 1) (n := 5)
      (fun anch ha s h => h.turn (by omega) row col ha) h
  have columns (row e : Nat) (he : e + 35 ≤ NN_OUT_RECORDS) (s : Decoding F)
      (h : HasRead rt mem nn_out e s) :=
    foldlM_range_eq_some (P := HasRead rt mem nn_out) (a := e) (m := 5) (n := 7)
      (fun col hc s h => anchors row col (e + col * 5) (by omega) s h) h
  have start : HasRead rt mem nn_out 0 ⟨mem, 0, 0⟩ :=
    ⟨[], ⟨rfl, rfl, Nat.le_refl 0, rfl, fun _ _ => rfl⟩,
      iff_of_true rfl fun k hk => absurd hk (Nat.not_lt_zero k)⟩
  have rows := foldlM_range_eq_some (P := HasRead rt mem nn_out) (a := 0) (m := 35) (n := 7)
    (fun row hr s h => columns row (0 + row * 35) (by simp only [NN_OUT_RECORDS]; omega) s h) start
  exact rows

end Decoding

/-! ## The copies -/

section Copies

variable {rt : Runtime F} {mem : Memory F}

/-- If at most ten records are alive, their copies fit. -/
theorem yolov2_pp_scoreFiltering_centroid_eq (hn : n < NN_OUT_RECORDS)
    (few : ((rt.loadRecords mem nn_out 0 n).filter fun r => Alive r).length ≤ MAX_BOXES_LIMIT)
    (pOutBuff : Nat → OdPpOutBuffer F) :
    yolov2_pp_scoreFiltering_centroid rt nn_out nn_out n mem pOutBuff =
      some (PeopleDetection.yolov2_pp_scoreFiltering_centroid rt nn_out n mem pOutBuff) := by
  have loop := foldlM_range_eq_some
    (P := fun i out => out.boxes = (rt.loadRecords mem nn_out 0 i).filter fun r => Alive r)
    (f := copyRecord rt nn_out nn_out mem) (g := PeopleDetection.copyRecord rt nn_out mem)
    (a := 0) (m := 1) (n := n) (s := ⟨pOutBuff, 0⟩) (fun i hi out h => ?_) rfl
  · exact loop.1
  · rw [Nat.zero_add, Nat.mul_one] at h ⊢
    have next : (PeopleDetection.copyRecord rt nn_out mem out i).boxes =
        (rt.loadRecords mem nn_out 0 (i + 1)).filter fun r => Alive r := by
      rw [boxes_copyRecord, h, rt.loadRecords_concat, List.filter_append, Nat.zero_add]
      rfl
    refine ⟨?_, next⟩
    rw [copyRecord, accessConf_eq (hi.trans hn), accessRecord_eq (hi.trans hn)]
    simp only [bind, Option.bind_some]
    by_cases dead : feq (scratchRecord rt nn_out mem i).conf 0
    · rw [if_pos dead, PeopleDetection.copyRecord, if_pos dead]
    · have part : ((rt.loadRecords mem nn_out 0 (i + 1)).filter fun r => Alive r).length ≤
          ((rt.loadRecords mem nn_out 0 n).filter fun r => Alive r).length :=
        (((List.range'_sublist_right.mpr hi).map _).filter _).length_le
      have count : out.nb_detect + 1 ≤ MAX_BOXES_LIMIT := by
        calc
          out.nb_detect + 1 = (PeopleDetection.copyRecord rt nn_out mem out i).boxes.length := by
            rw [PeopleDetection.copyRecord, if_neg dead, OdPpOut.boxes, List.length_map,
              List.length_range]
          _ ≤ MAX_BOXES_LIMIT := next ▸ part.trans few
      rw [if_neg dead, entry_eq count]
      rfl

/-- The globals when the first `i` boxes are copied. -/
def copied (out : OdPpOut F) (t0 t1 : UInt32) (s : NnState F) (i : Nat) : NnState F where
  detections j := if j < i then out.pOutBuff j else s.detections j
  detections_nb := (min out.nb_detect MAX_BOXES_LIMIT : Nat)
  latest_inference_time := i32 (t1 - t0).toNat

omit [Zero F] [CFloat F] in
/-- One turn of the copy. -/
theorem storeDetection_copied (out : OdPpOut F) (t0 t1 : UInt32) (s : NnState F)
    (hi : i < MAX_BOXES_LIMIT) :
    storeDetection out (copied out t0 t1 s i) i = some (copied out t0 t1 s (i + 1)) := by
  rw [storeDetection, entry_eq hi]
  refine congrArg (fun d => some (NnState.mk d _ _)) (funext fun j => ?_)
  simp only [copied, Nat.lt_succ_iff_lt_or_eq]
  by_cases last : j = i
  · rw [if_pos last, if_pos (Or.inr last), last]
  · rw [if_neg last]
    simp only [last, or_false]

omit [Zero F] [CFloat F] in
/-- The whole copy publishes the boxes. -/
theorem copied_all (out : OdPpOut F) (t0 t1 : UInt32) (s : NnState F) :
    copied out t0 t1 s (min out.nb_detect MAX_BOXES_LIMIT) =
      PeopleDetection.run_nn_from_sd_card out.boxes t0 t1 s := by
  have nb : ((min out.nb_detect MAX_BOXES_LIMIT : Nat) : Int) =
      min (out.boxes.length : Int) MAX_BOXES_LIMIT := by
    rw [OdPpOut.boxes, List.length_map, List.length_range, Nat.cast_min]
  rw [copied, PeopleDetection.run_nn_from_sd_card, NnState.mk.injEq]
  refine ⟨funext fun j => ?_, nb, rfl⟩
  rw [List.getElem?_take, OdPpOut.boxes, List.getElem?_map]
  by_cases inside : j < min out.nb_detect MAX_BOXES_LIMIT
  · obtain ⟨detected, first⟩ := Nat.lt_min.mp inside
    rw [if_pos inside, if_pos first, List.getElem?_range detected]
    rfl
  · rw [if_neg inside]
    split
    · next first =>
        have none : out.nb_detect ≤ j := not_lt.mp fun h => inside (Nat.lt_min.mpr ⟨h, first⟩)
        rw [List.getElem?_eq_none (by rwa [List.length_range])]
        rfl
    · rfl

omit [Zero F] [CFloat F] in
/-- The copy to `detections` stays within its bounds. -/
theorem foldlM_storeDetection (out : OdPpOut F) (t0 t1 : UInt32) (s : NnState F) :
    (List.range (min out.nb_detect MAX_BOXES_LIMIT)).foldlM (storeDetection out)
        { s with
          latest_inference_time := i32 (t1 - t0).toNat
          detections_nb := (min out.nb_detect MAX_BOXES_LIMIT : Nat) } =
      some (PeopleDetection.run_nn_from_sd_card out.boxes t0 t1 s) := by
  have turn : ∀ i < min out.nb_detect MAX_BOXES_LIMIT, ∀ r, r = copied out t0 t1 s (0 + i * 1) →
      storeDetection out r i = some (copied out t0 t1 s (i + 1)) ∧
        copied out t0 t1 s (i + 1) = copied out t0 t1 s (0 + i * 1 + 1) := by
    rintro i hi r rfl
    rw [Nat.zero_add, Nat.mul_one]
    exact ⟨storeDetection_copied out t0 t1 s (hi.trans_le (min_le_right _ _)), rfl⟩
  have loop := foldlM_range_eq_some (P := fun i r => r = copied out t0 t1 s i) (a := 0) (m := 1)
    (g := fun _ i => copied out t0 t1 s (i + 1)) turn (s := copied out t0 t1 s 0) rfl
  rw [Nat.zero_add, Nat.mul_one] at loop
  have start : copied out t0 t1 s 0 = { s with
      latest_inference_time := i32 (t1 - t0).toNat
      detections_nb := (min out.nb_detect MAX_BOXES_LIMIT : Nat) } :=
    congrArg (fun d => NnState.mk d _ _) (funext fun j => if_neg (Nat.not_lt_zero j))
  rw [← start, loop.1, loop.2, copied_all]

end Copies

/-! ## The whole run -/

section Run

variable (rt : Runtime F) {mem : Memory F}

/-- The number of boxes that the decoder finds in the tensor. -/
theorem count_detect_lt_iff (mem : Memory F) :
    (PeopleDetection.yolov2_pp_getNNBoxes_centroid rt pp_params nn_out nn_out mem).count_detect <
        NN_OUT_RECORDS ↔ ∃ e < NN_OUT_RECORDS, ¬ Fires rt mem nn_out e := by
  obtain ⟨-, found, decoded, all⟩ := yolov2_pp_getNNBoxes_centroid_eq rt nn_out mem
  rw [decoded.count, decoded.le.lt_iff_ne, ne_eq, all]
  push Not
  rfl

/-- If every anchor fires, the filter makes an access outside. -/
theorem od_yolov2_pp_process_eq_none (all : ∀ e < NN_OUT_RECORDS, Fires rt mem nn_out e)
    (out : OdPpOut F) : od_yolov2_pp_process rt nn_out pp_params nn_out mem out = none := by
  obtain ⟨run, found, decoded, full⟩ := yolov2_pp_getNNBoxes_centroid_eq rt nn_out mem
  have scratch : scratchBuffer (pp_params : OdYolov2PpStaticParam F) nn_out = some nn_out := rfl
  simp only [od_yolov2_pp_process, scratch, run, bind, Option.bind_some,
    decoded.count.trans (full.mpr all)]
  have filtered : yolov2_pp_nmsFiltering_centroid rt (pp_params : OdYolov2PpStaticParam F) nn_out
      nn_out NN_OUT_RECORDS (PeopleDetection.yolov2_pp_getNNBoxes_centroid rt pp_params nn_out
        nn_out mem).mem = none := by
    change (List.range' 0 1).foldlM _ _ = none
    rw [List.range'_one, List.foldlM_cons, filterClass_eq_none]
    rfl
  rw [filtered]
  rfl

section Filtered

variable (zero : feq (0 : F) 0)
  (sorted : ∀ (k : Int) l, (rt.qsort (yolov2_nms_comparator k) l).length = l.length)

include zero sorted

/-- The filter leaves at most ten records alive. -/
theorem length_filter_nmsFiltering (mem : Memory F) (n : Nat) :
    ((rt.loadRecords (PeopleDetection.yolov2_pp_nmsFiltering_centroid rt pp_params nn_out n mem)
      nn_out 0 n).filter fun r => Alive r).length ≤ MAX_BOXES_LIMIT := by
  have dead : ∀ r : OdPpOutBuffer F, ¬ Alive r.drop := fun r alive => alive zero
  rw [loadRecords_nmsFiltering rt pp_params nn_out sorted]
  change ((filteredClass rt pp_params (rt.loadRecords mem nn_out 0 n) 0).filter
    fun r => Alive r).length ≤ MAX_BOXES_LIMIT
  rw [filteredClass, filter_cut _ dead, List.length_take]
  exact min_le_left _ _

/-- If some anchor does not fire, post-processing stays within its buffers. -/
theorem od_yolov2_pp_process_eq_some (some_weak : ∃ e < NN_OUT_RECORDS, ¬ Fires rt mem nn_out e)
    (out : OdPpOut F) :
    od_yolov2_pp_process rt nn_out pp_params nn_out mem out =
      some (PeopleDetection.od_yolov2_pp_process rt pp_params nn_out mem out) := by
  have few := (count_detect_lt_iff rt mem).mpr some_weak
  have scratch : scratchBuffer (pp_params : OdYolov2PpStaticParam F) nn_out = some nn_out := rfl
  simp only [od_yolov2_pp_process, PeopleDetection.od_yolov2_pp_process, scratch, bind,
    Option.bind_some, (yolov2_pp_getNNBoxes_centroid_eq rt nn_out mem).1,
    yolov2_pp_nmsFiltering_centroid_eq rt pp_params few,
    yolov2_pp_scoreFiltering_centroid_eq few (length_filter_nmsFiltering rt zero sorted _ _)]

/-- No access is out of bounds exactly if some anchor does not fire; the run then publishes
what the unchecked one publishes. -/
theorem run_nn_within_bounds_iff (mem : Memory F) (pp_output : OdPpOut F) (t0 t1 : UInt32)
    (s : NnState F) :
    let run := run_nn_from_sd_card rt nn_out mem pp_output t0 t1 s
    (run.isSome ↔ ∃ e < NN_OUT_RECORDS, ¬ Fires rt mem nn_out e) ∧
      ∀ s' ∈ run, s' = PeopleDetection.run_nn_from_sd_card
        (PeopleDetection.od_yolov2_pp_process rt pp_params nn_out mem pp_output).2.2.boxes
        t0 t1 s := by
  intro run
  by_cases weak : ∃ e < NN_OUT_RECORDS, ¬ Fires rt mem nn_out e
  · have published : run = some (PeopleDetection.run_nn_from_sd_card
        (PeopleDetection.od_yolov2_pp_process rt pp_params nn_out mem pp_output).2.2.boxes
        t0 t1 s) := by
      simp only [run]
      rw [run_nn_from_sd_card, od_yolov2_pp_process_eq_some rt zero sorted weak]
      exact foldlM_storeDetection _ t0 t1 s
    rw [published]
    exact ⟨iff_of_true rfl weak, fun s' h => (Option.mem_some_iff.mp h).symm⟩
  · have outside : run = none := by
      push Not at weak
      simp only [run]
      rw [run_nn_from_sd_card, od_yolov2_pp_process_eq_none rt weak]
      rfl
    rw [outside]
    exact ⟨iff_of_false Bool.false_ne_true weak, fun s' h => by cases h⟩

end Filtered
end Run

/-! ## Two tensors -/

theorem computedThreshold_real : computedThreshold Runtime.real pp_params = 0 := by
  change -Real.log (((1 : Int) : ℝ) / (((1 : Int) : ℝ) / ((2 : Int) : ℝ)) - ((1 : Int) : ℝ)) = 0
  norm_num

/-- The output buffer and the globals before the first inference. -/
noncomputable def firstOutput : OdPpOut ℝ := ⟨fun _ => ⟨0, 0, 0, 0, 0, 0⟩, 0⟩

noncomputable def firstState : NnState ℝ := ⟨fun _ => ⟨0, 0, 0, 0, 0, 0⟩, 0, 0⟩

/-- The theorem for a tensor in which no anchor fires. -/
theorem run_nn_within_bounds_iff_sample :
    let run := run_nn_from_sd_card Runtime.real 0 (fun _ => .float (-1)) firstOutput 0 1 firstState
    (run.isSome ↔ ∃ e < NN_OUT_RECORDS, ¬ Fires Runtime.real (fun _ => .float (-1)) 0 e) ∧
      ∀ s' ∈ run, s' = PeopleDetection.run_nn_from_sd_card
        (PeopleDetection.od_yolov2_pp_process Runtime.real pp_params 0 (fun _ => .float (-1))
          firstOutput).2.2.boxes 0 1 firstState :=
  run_nn_within_bounds_iff Runtime.real ⟨le_refl 0, le_refl 0⟩
    (fun k l => (Runtime.real_exact.qsort_perm _ l (comparator_yolov2_nms_comparator k)).length_eq)
    _ _ _ _ _

/-- In a tensor of zeros every anchor fires, and the filter touches record 245. -/
theorem zero_tensor_out_of_bounds :
    run_nn_from_sd_card Runtime.real 0 (fun _ => .float 0) firstOutput 0 1 firstState = none := by
  have all : ∀ e < NN_OUT_RECORDS, Fires Runtime.real (fun _ => .float 0) 0 e := by
    intro e _
    change computedThreshold Runtime.real pp_params ≤ 0
    exact computedThreshold_real.le
  have outside := od_yolov2_pp_process_eq_none Runtime.real all firstOutput
  unfold run_nn_from_sd_card
  rw [outside]
  rfl

end PeopleDetection.Checked
