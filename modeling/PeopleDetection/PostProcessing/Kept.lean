import PeopleDetection.PostProcessing.Published

/-!
# What suppression keeps

For every number of classes, anchors and cells, over the real numbers. The pass for the
first class suppresses the boxes of all classes, since the passes do not look at classes
when they compare boxes. It leaves boxes that do not overlap, and few enough of them, so
that the passes for the other classes only change their order.
-/

namespace PeopleDetection

open Library

/-! ## Overlap does not depend on the order -/

theorem overlap_swap (x1 w1 x2 w2 : ℝ) : overlap x1 w1 x2 w2 = overlap x2 w2 x1 w1 := by
  have maxOf (a b : ℝ) : (if b < a then a else b) = max a b := by
    rw [max_comm, max_def_lt]
  have minOf (a b : ℝ) : (if a < b then a else b) = min a b := by
    rw [min_def_lt]
  simp only [overlap, maxOf, minOf]
  rw [max_comm, min_comm]

theorem vision_models_box_iou_swap (a b : OdPpOutBuffer ℝ) :
    vision_models_box_iou a b = vision_models_box_iou b a := by
  have intersection : box_intersection a b = box_intersection b a := by
    rw [box_intersection, box_intersection, overlap_swap a.x_center, overlap_swap a.y_center]
  have union : box_union a b = box_union b a := by
    rw [box_union, box_union, intersection, add_comm]
  rw [vision_models_box_iou, vision_models_box_iou, intersection, union]

theorem suppresses_swap (p : OdYolov2PpStaticParam ℝ) {a b : OdPpOutBuffer ℝ}
    (h : ¬ Suppresses p a b) : ¬ Suppresses p b a := by
  rw [Suppresses, vision_models_box_iou_swap]
  exact h

section Classes

variable {rt : Runtime ℝ} (exact : rt.Exact) (p : OdYolov2PpStaticParam ℝ)

include exact

/-! ## Decoded boxes are alive -/

theorem sigmoid_pos (x : ℝ) : 0 < vision_models_sigmoid_f rt x := by
  have pos := exact.expf_pos (-x)
  change 0 < ((1 : Int) : ℝ) / (((1 : Int) : ℝ) + rt.expf (-x))
  rw [Int.cast_one]
  exact div_pos one_pos (by linarith)

theorem best_score_pos (classes : 0 < p.nb_classes) (v : Nat → ℝ) :
    0 < (best_score rt p v).1 := by
  have sums (l : List Nat) (s : ℝ) (nonneg : 0 ≤ s) :
      s ≤ l.foldl (fun sum i => sum + rt.expf (v (CLASSPROB + i))) s := by
    induction l generalizing s with
    | nil => exact le_refl s
    | cons i l ih =>
        have pos := exact.expf_pos (v (CLASSPROB + i))
        exact (by linarith : s ≤ s + _).trans (ih _ (by linarith))
  have sum : 0 < (List.range p.nb_classes).foldl
      (fun sum i => sum + rt.expf (v (CLASSPROB + i))) 0 := by
    obtain ⟨n, hn⟩ := Nat.exists_eq_add_of_lt classes
    rw [hn, Nat.zero_add, List.range_succ_eq_map, List.foldl_cons]
    have pos := exact.expf_pos (v (CLASSPROB + 0))
    exact (by linarith : (0 : ℝ) < 0 + _).trans_le (sums _ _ (by linarith))
  exact mul_pos (div_pos (exact.expf_pos _) sum) (sigmoid_pos exact _)

theorem alive_of_mem_decoded (classes : 0 < p.nb_classes) {tensor : Nat → ℝ}
    {r : OdPpOutBuffer ℝ} (h : r ∈ decoded rt p tensor) : Alive r := by
  simp only [decoded, List.mem_flatMap, Option.mem_toList, anchorBox] at h
  obtain ⟨row, _, col, _, anch, _, h⟩ := h
  have pos : 0 < r.conf := by
    split_ifs at h
    · cases h
      exact sigmoid_pos exact _
    · cases h
      exact best_score_pos exact p classes _
  exact fun zero => absurd pos (not_lt.mpr zero.1)

/-! ## The passes -/

omit exact in
/-- What one pass leaves alive. -/
theorem filter_filteredClass (items : List (OdPpOutBuffer ℝ)) (k : Nat) :
    (filteredClass rt p items k).filter (fun r => Alive r) =
      (greedy (Suppresses p) ((rt.qsort (yolov2_nms_comparator k) items).filter
        fun r => Alive r)).take p.max_boxes_limit := by
  have dead : ∀ r : OdPpOutBuffer ℝ, ¬ Alive r.drop := fun r alive =>
    alive ⟨le_refl 0, le_refl 0⟩
  rw [filteredClass, filter_cut _ dead, filter_sweep _ _ dead]

/-- A pass over boxes that do not overlap, and that are few enough, reorders them. -/
theorem perm_filteredClass {items kept : List (OdPpOutBuffer ℝ)}
    (alive : (items.filter fun r => Alive r).Perm kept)
    (apart : kept.Pairwise fun a b => ¬ Suppresses p a b) (few : kept.length ≤ p.max_boxes_limit)
    (k : Nat) : ((filteredClass rt p items k).filter fun r => Alive r).Perm kept := by
  have same : ((rt.qsort (yolov2_nms_comparator k) items).filter fun r => Alive r).Perm kept :=
    ((exact.qsort_perm _ items (comparator_yolov2_nms_comparator k)).filter _).trans alive
  have free := (same.pairwise_iff (R := fun a b => ¬ Suppresses p a b)
    fun h => suppresses_swap p h).mpr apart
  rw [filter_filteredClass, greedy_eq_self _ free, List.take_of_length_le
    (same.length_eq.trans_le few)]
  exact same

/-- All passes leave what the first one does. -/
theorem perm_foldl_filteredClass {items : List (OdPpOutBuffer ℝ)}
    (alive : ∀ r ∈ items, Alive r) (classes : 0 < p.nb_classes) :
    (((List.range p.nb_classes).foldl (filteredClass rt p) items).filter fun r => Alive r).Perm
      ((greedy (Suppresses p) (rt.qsort (yolov2_nms_comparator 0) items)).take
        p.max_boxes_limit) := by
  set order := rt.qsort (yolov2_nms_comparator 0) items
  have perm : order.Perm items := exact.qsort_perm _ _ (comparator_yolov2_nms_comparator 0)
  have allAlive : order.filter (fun r => Alive r) = order :=
    List.filter_eq_self.mpr fun r hr => decide_eq_true (alive r (perm.mem_iff.mp hr))
  obtain ⟨n, hn⟩ := Nat.exists_eq_add_of_lt classes
  rw [hn, Nat.zero_add]
  clear hn
  induction n with
  | zero =>
      rw [List.range_one, List.foldl_cons, List.foldl_nil, filter_filteredClass]
      exact List.Perm.of_eq (congrArg (fun l => (greedy (Suppresses p) l).take _) allAlive)
  | succ n ih =>
      rw [List.range_succ, List.foldl_append, List.foldl_cons, List.foldl_nil]
      exact perm_filteredClass exact p ih
        ((pairwise_greedy (Suppresses p) order).sublist (List.take_sublist _ _))
        (List.length_take_le _ _) _

/-! ## All classes -/

/-- The order in which the first pass takes the boxes of a tensor. -/
noncomputable def firstOrder (rt : Runtime ℝ) (p : OdYolov2PpStaticParam ℝ) (tensor : Nat → ℝ) :
    List (OdPpOutBuffer ℝ) :=
  rt.qsort (yolov2_nms_comparator 0) (decoded rt p tensor)

theorem perm_firstOrder (tensor : Nat → ℝ) :
    (firstOrder rt p tensor).Perm (decoded rt p tensor) :=
  exact.qsort_perm _ _ (comparator_yolov2_nms_comparator 0)

theorem pairwise_firstOrder (tensor : Nat → ℝ) :
    (firstOrder rt p tensor).Pairwise fun a b => sortKey 0 b ≤ sortKey 0 a := by
  have sorted := exact.qsort_sorted _ (decoded rt p tensor) (comparator_yolov2_nms_comparator 0)
  refine sorted.imp ?_
  intro a b le
  exact (yolov2_nms_comparator_nonpos_iff 0 a b).mp le

/-- What post-processing leaves in the output buffer, up to its order. -/
theorem perm_boxes_process (classes : 0 < p.nb_classes) (inPlace : p.pScratchBuffer = none)
    (mem : Memory ℝ) (base : Nat) (out : OdPpOut ℝ) :
    let result := od_yolov2_pp_process rt p base mem out
    result.1 = 0 ∧ result.2.2.boxes.Perm ((greedy (Suppresses p)
      (firstOrder rt p fun k => rt.loadFloat mem (base + k))).take p.max_boxes_limit) := by
  have fits : RECORD ≤ anch_stride p := by
    change 6 ≤ p.nb_classes + 5
    omega
  have scratch : scratchBuffer p base = some base := by
    rw [scratchBuffer, inPlace]
    exact if_pos (by rw [Nat.add_comm]; exact fits)
  have length : ∀ (k : Int) l, (rt.qsort (yolov2_nms_comparator k) l).length = l.length :=
    fun k l => (exact.qsort_perm _ l (comparator_yolov2_nms_comparator k)).length_eq
  obtain ⟨-, found⟩ := yolov2_pp_getNNBoxes_centroid_inPlace rt p fits mem base
  rw [od_yolov2_pp_process, scratch]
  refine ⟨rfl, ?_⟩
  dsimp only
  rw [boxes_scoreFiltering, loadRecords_nmsFiltering rt p base length, found]
  exact perm_foldl_filteredClass exact p
    (fun r hr => alive_of_mem_decoded exact p classes hr) classes

/-- For any number of classes, anchors and cells, the output buffer holds the first boxes of
a list that comes from the tensor, has no two boxes that overlap and leaves out only
boxes that overlap one in it. The list is ordered as the first pass orders it, which takes
the boxes of class zero by their confidence and before those of the other classes. -/
theorem process_keeps (classes : 0 < p.nb_classes) (inPlace : p.pScratchBuffer = none)
    (mem : Memory ℝ) (base : Nat) (out : OdPpOut ℝ) :
    let result := od_yolov2_pp_process rt p base mem out
    let found := decoded rt p fun k => rt.loadFloat mem (base + k)
    result.1 = 0 ∧ ∃ kept : List (OdPpOutBuffer ℝ),
      result.2.2.boxes.Perm (kept.take p.max_boxes_limit) ∧ kept.Subperm found ∧
      kept.Pairwise (fun a b => vision_models_box_iou a b ≤ p.iou_threshold) ∧
      kept.Pairwise (fun a b => sortKey 0 b ≤ sortKey 0 a) ∧
      ∀ r ∈ found, r ∈ kept ∨
        ∃ k ∈ kept, p.iou_threshold < vision_models_box_iou k r ∧ sortKey 0 r ≤ sortKey 0 k := by
  intro result found
  obtain ⟨done, boxes⟩ := perm_boxes_process exact p classes inPlace mem base out
  set tensor := fun k => rt.loadFloat mem (base + k)
  have perm := perm_firstOrder exact p tensor
  have ordered := pairwise_firstOrder exact p tensor
  have sublist := greedy_sublist (Suppresses p) (firstOrder rt p tensor)
  refine ⟨done, _, boxes, sublist.subperm.trans perm.subperm, ?_, ordered.sublist sublist, ?_⟩
  · exact (pairwise_greedy (Suppresses p) _).imp fun apart => not_lt.mp apart
  · intro r hr
    by_cases member : r ∈ greedy (Suppresses p) (firstOrder rt p tensor)
    · exact Or.inl member
    · exact Or.inr (exists_suppresses (Suppresses p) ordered (perm.mem_iff.mpr hr) member)

end Classes

/-! ## The firmware -/

section Firmware

variable {rt : Runtime ℝ} (exact : rt.Exact)

include exact

/-- The detections that an inference publishes are confident, come by decreasing confidence
and do not overlap. A box of the tensor that is confident and not among them either
overlaps one that is at least as confident, or ten at least as confident were found. -/
theorem published_detections_apart (mem : Memory ℝ) (base : Nat) (out : OdPpOut ℝ)
    (t0 t1 : UInt32) (s : NnState ℝ) :
    let result := od_yolov2_pp_process rt pp_params base mem out
    let s' := run_nn_from_sd_card result.2.2.boxes t0 t1 s
    let published := (List.range s'.detections_nb.toNat).map s'.detections
    published.Subperm (candidates rt fun k => rt.loadFloat mem (base + k)) ∧
      published.length ≤ 10 ∧ (∀ r ∈ published, half ≤ r.conf) ∧
      published.Pairwise (fun a b => vision_models_box_iou a b ≤ half ∧ b.conf ≤ a.conf) ∧
      ∀ r ∈ candidates rt fun k => rt.loadFloat mem (base + k), r ∈ published ∨
        (∃ k ∈ published, half < vision_models_box_iou k r ∧ r.conf ≤ k.conf) ∨
        published.length = 10 ∧ ∀ k ∈ published, r.conf ≤ k.conf := by
  intro result s' published
  obtain ⟨-, boxes⟩ := boxes_process exact mem base out
  set order := sortedCandidates rt fun k => rt.loadFloat mem (base + k)
  set kept := greedy (Suppresses pp_params) order
  have few : result.2.2.boxes.length ≤ MAX_BOXES_LIMIT := by
    rw [boxes, List.length_take]
    exact min_le_left _ _
  obtain ⟨nb, all⟩ := detections_run_nn t0 t1 s few
  have first : published = kept.take 10 := by
    simp only [published, s', nb, Int.toNat_natCast, all]
    exact boxes
  have perm := perm_sortedCandidates exact fun k => rt.loadFloat mem (base + k)
  have ordered := pairwise_sortedCandidates exact fun k => rt.loadFloat mem (base + k)
  have sublist : kept.Sublist order := greedy_sublist (Suppresses pp_params) order
  have sub : (kept.take 10).Subperm (candidates rt fun k => rt.loadFloat mem (base + k)) :=
    ((List.take_sublist 10 kept).trans sublist).subperm.trans perm.subperm
  have apart : kept.Pairwise fun a b => vision_models_box_iou a b ≤ half ∧ b.conf ≤ a.conf :=
    ((pairwise_greedy (Suppresses pp_params) order).and (ordered.sublist sublist)).imp
      fun both => ⟨not_lt.mp both.1, both.2⟩
  rw [first]
  refine ⟨sub, List.length_take_le _ _, fun r hr => (mem_candidates (sub.subset hr)).1,
    apart.sublist (List.take_sublist _ _), ?_⟩
  intro r hr
  -- the box of the whole choice that stands for `r`: itself, or one that suppresses it
  have stands : ∃ k ∈ kept, r.conf ≤ k.conf ∧ (k = r ∨ half < vision_models_box_iou k r) := by
    by_cases member : r ∈ kept
    · exact ⟨r, member, le_refl _, Or.inl rfl⟩
    · obtain ⟨k, hk, close, le⟩ :=
        exists_suppresses (Suppresses pp_params) ordered (perm.mem_iff.mpr hr) member
      exact ⟨k, hk, le, Or.inr close⟩
  obtain ⟨k, hk, le, close⟩ := stands
  rw [← List.take_append_drop 10 kept, List.mem_append] at hk
  cases hk with
  | inl early =>
      cases close with
      | inl same => exact Or.inl (same ▸ early)
      | inr close => exact Or.inr (Or.inl ⟨k, early, close, le⟩)
  | inr late =>
      have full : (kept.take 10).length = 10 := by
        have length := List.length_pos_of_mem late
        rw [List.length_drop] at length
        rw [List.length_take]
        omega
      refine Or.inr (Or.inr ⟨full, fun q hq => le.trans ?_⟩)
      have split := apart
      rw [← List.take_append_drop 10 kept, List.pairwise_append] at split
      exact (split.2.2 q hq k late).2

/-- Where no two boxes are equally confident, every sort that keeps the contract of `qsort`
makes post-processing find the same boxes. -/
theorem boxes_process_of_qsort {sort : (OdPpOutBuffer ℝ → OdPpOutBuffer ℝ → Int) →
      List (OdPpOutBuffer ℝ) → List (OdPpOutBuffer ℝ)}
    (other : ({ rt with qsort := sort } : Runtime ℝ).Exact) (mem : Memory ℝ) (base : Nat)
    (out : OdPpOut ℝ)
    (distinct : (candidates rt fun k => rt.loadFloat mem (base + k)).Pairwise
      fun a b => a.conf ≠ b.conf) :
    (od_yolov2_pp_process { rt with qsort := sort } pp_params base mem out).2.2.boxes =
      (od_yolov2_pp_process rt pp_params base mem out).2.2.boxes := by
  rw [(boxes_process exact mem base out).2, (boxes_process other mem base out).2]
  congr 2
  set tensor := fun k => rt.loadFloat mem (base + k)
  have here := perm_sortedCandidates exact tensor
  have there : (sortedCandidates { rt with qsort := sort } tensor).Perm (candidates rt tensor) :=
    perm_sortedCandidates other tensor
  refine (there.trans here.symm).eq_of_pairwise ?_ (pairwise_sortedCandidates other tensor)
    (pairwise_sortedCandidates exact tensor)
  intro a b ha hb below above
  have symm : Std.Symm fun a b : OdPpOutBuffer ℝ => a.conf ≠ b.conf := ⟨fun _ _ => Ne.symm⟩
  by_contra differ
  exact distinct.forall (there.mem_iff.mp ha) (here.mem_iff.mp hb) differ
    (le_antisymm above below)

theorem sigmoid_strictMono : StrictMono (vision_models_sigmoid_f rt) := by
  intro x y less
  have pos := exact.expf_pos (-y)
  have grows := exact.expf_strictMono (neg_lt_neg less)
  change ((1 : Int) : ℝ) / (((1 : Int) : ℝ) + rt.expf (-x)) <
    ((1 : Int) : ℝ) / (((1 : Int) : ℝ) + rt.expf (-y))
  rw [Int.cast_one]
  exact one_div_lt_one_div_of_lt (by linarith) (by linarith)

/-- A tensor whose objectness grows along its anchors has boxes that are all different. -/
theorem pairwise_candidates {tensor : Nat → ℝ} (grows : StrictMono fun e => tensor (6 * e + 4)) :
    (candidates rt tensor).Pairwise fun a b => a.conf ≠ b.conf := by
  have apart {e e' : Nat} (less : e < e') : vision_models_sigmoid_f rt (tensor (6 * e + 4)) ≠
      vision_models_sigmoid_f rt (tensor (6 * e' + 4)) :=
    (sigmoid_strictMono exact (grows less)).ne
  have conf {x y w h c : ℝ} {r : OdPpOutBuffer ℝ}
      (hr : r ∈ if half ≤ c then [⟨x, y, w, h, c, 0⟩] else []) : r.conf = c := by
    split at hr
    · rw [List.mem_singleton.mp hr]
    · cases hr
  rw [candidates, List.pairwise_flatMap]
  refine ⟨fun row _ => ?_, List.pairwise_lt_range.imp_of_mem ?_⟩
  · rw [List.pairwise_flatMap]
    refine ⟨fun col _ => ?_, List.pairwise_lt_range.imp_of_mem ?_⟩
    · rw [List.pairwise_flatMap]
      refine ⟨fun anch _ => ?_, List.pairwise_lt_range.imp_of_mem ?_⟩
      · dsimp only
        split
        · exact List.pairwise_singleton _ _
        · exact List.Pairwise.nil
      · intro anch anch' _ _ less a ha b hb
        rw [conf ha, conf hb]
        exact apart (by omega)
    · intro col col' _ _ less a ha b hb
      obtain ⟨anch, ha', ha⟩ := List.mem_flatMap.mp ha
      obtain ⟨anch', hb', hb⟩ := List.mem_flatMap.mp hb
      rw [List.mem_range] at ha' hb'
      rw [conf ha, conf hb]
      exact apart (by omega)
  · intro row row' _ _ less a ha b hb
    simp only [List.mem_flatMap] at ha hb
    obtain ⟨col, hcol, anch, hanch, ha⟩ := ha
    obtain ⟨col', hcol', anch', hanch', hb⟩ := hb
    rw [List.mem_range] at hcol hanch hcol' hanch'
    rw [conf ha, conf hb]
    exact apart (by omega)

end Firmware

/-! ## Tensors of zeros -/

/-- Post-processing of a tensor of zeros for three classes. -/
theorem process_keeps_zero :
    let p : OdYolov2PpStaticParam ℝ := { pp_params with nb_classes := 3 }
    let tensor := fun k => Runtime.real.loadFloat (fun _ => .float 0) (0 + k)
    let result := od_yolov2_pp_process Runtime.real p 0 (fun _ => .float 0)
      ⟨fun _ => ⟨0, 0, 0, 0, 0, 0⟩, 0⟩
    result.1 = 0 ∧ ∃ kept : List (OdPpOutBuffer ℝ),
      result.2.2.boxes.Perm (kept.take 10) ∧ kept.Subperm (decoded Runtime.real p tensor) ∧
      kept.Pairwise (fun a b => vision_models_box_iou a b ≤ half) ∧
      kept.Pairwise (fun a b => sortKey 0 b ≤ sortKey 0 a) ∧
      ∀ r ∈ decoded Runtime.real p tensor, r ∈ kept ∨
        ∃ k ∈ kept, half < vision_models_box_iou k r ∧ sortKey 0 r ≤ sortKey 0 k :=
  process_keeps Runtime.real_exact { pp_params with nb_classes := 3 } (by decide) rfl _ _ _

/-- The published detections for a tensor of zeros. -/
theorem published_detections_apart_zero :
    let tensor := fun k => Runtime.real.loadFloat (fun _ => .float 0) (0 + k)
    let result := od_yolov2_pp_process Runtime.real pp_params 0 (fun _ => .float 0)
      ⟨fun _ => ⟨0, 0, 0, 0, 0, 0⟩, 0⟩
    let s' := run_nn_from_sd_card result.2.2.boxes 0 1 ⟨fun _ => ⟨0, 0, 0, 0, 0, 0⟩, 0, 0⟩
    let published := (List.range s'.detections_nb.toNat).map s'.detections
    published.Subperm (candidates Runtime.real tensor) ∧
      published.length ≤ 10 ∧ (∀ r ∈ published, half ≤ r.conf) ∧
      published.Pairwise (fun a b => vision_models_box_iou a b ≤ half ∧ b.conf ≤ a.conf) ∧
      ∀ r ∈ candidates Runtime.real tensor, r ∈ published ∨
        (∃ k ∈ published, half < vision_models_box_iou k r ∧ r.conf ≤ k.conf) ∨
        published.length = 10 ∧ ∀ k ∈ published, r.conf ≤ k.conf :=
  published_detections_apart Runtime.real_exact _ _ _ _ _ _

/-- The sort of `Runtime.real`, for the list the other way round. -/
noncomputable def reversedSort (cmp : OdPpOutBuffer ℝ → OdPpOutBuffer ℝ → Int)
    (l : List (OdPpOutBuffer ℝ)) : List (OdPpOutBuffer ℝ) :=
  Runtime.real.qsort cmp l.reverse

theorem reversedSort_exact : ({ Runtime.real with qsort := reversedSort } : Runtime ℝ).Exact :=
  { Runtime.real_exact with
    qsort_perm := fun cmp l comparator =>
      (Runtime.real_exact.qsort_perm cmp l.reverse comparator).trans (List.reverse_perm l)
    qsort_sorted := fun cmp l comparator =>
      Runtime.real_exact.qsort_sorted cmp l.reverse comparator }

/-- Two sorts, for a tensor whose word at `k` is `k`. -/
theorem boxes_process_of_qsort_reversed :
    (od_yolov2_pp_process { Runtime.real with qsort := reversedSort } pp_params 0
        (fun k => .float k) ⟨fun _ => ⟨0, 0, 0, 0, 0, 0⟩, 0⟩).2.2.boxes =
      (od_yolov2_pp_process Runtime.real pp_params 0 (fun k => .float k)
        ⟨fun _ => ⟨0, 0, 0, 0, 0, 0⟩, 0⟩).2.2.boxes := by
  refine boxes_process_of_qsort Runtime.real_exact reversedSort_exact _ _ _
    (pairwise_candidates Runtime.real_exact ?_)
  intro e e' less
  change ((0 + (6 * e + 4) : Nat) : ℝ) < ((0 + (6 * e' + 4) : Nat) : ℝ)
  exact Nat.cast_lt.mpr (by omega)

end PeopleDetection
