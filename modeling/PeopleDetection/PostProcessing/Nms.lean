import PeopleDetection.Library.Suppression
import PeopleDetection.PostProcessing.Yolov2

/-!
# Suppression in place

The loops over the record array are functions on the list of its records: the double loop
is a sweep that kills what overlaps, the limit is a cut, and the final copy takes what is
alive. A record is alive while its confidence is not zero.
-/

namespace PeopleDetection

open Library

variable {F : Type} [Zero F] [CFloat F]

/-- A record that was not dropped. -/
def Alive (r : OdPpOutBuffer F) : Prop := ¬ feq r.conf 0

instance instDecidablePredAlive : DecidablePred (Alive : OdPpOutBuffer F → Prop) :=
  fun r => inferInstanceAs (Decidable (¬ feq r.conf 0))

def OdPpOutBuffer.drop (r : OdPpOutBuffer F) : OdPpOutBuffer F := { r with conf := 0 }

variable (rt : Runtime F) (p : OdYolov2PpStaticParam F) (scratch : Nat)

/-- Box `a` suppresses box `b` behind it. -/
def Suppresses (a b : OdPpOutBuffer F) : Prop := p.iou_threshold < vision_models_box_iou a b

instance instDecidableRelSuppresses : DecidableRel (Suppresses p) :=
  fun a b => inferInstanceAs (Decidable (p.iou_threshold < vision_models_box_iou a b))

/-- What one box leaves of another behind it. -/
abbrev struck : OdPpOutBuffer F → OdPpOutBuffer F → OdPpOutBuffer F :=
  strike (Suppresses p) Alive OdPpOutBuffer.drop

omit [CFloat F] in
theorem scratchRecord_dropRecord (mem : Memory F) (i j : Nat) :
    scratchRecord rt scratch (dropRecord scratch mem i) j =
      if j = i then (scratchRecord rt scratch mem i).drop else scratchRecord rt scratch mem j :=
  rt.loadRecord_store_conf mem scratch i j 0

/-! ## The double loop -/

/-- The inner body strikes record `j`. -/
theorem scratchRecord_suppressRecord (mem : Memory F) (i j k : Nat) :
    scratchRecord rt scratch (suppressRecord rt p scratch i mem j) k =
      if k = j then struck p (scratchRecord rt scratch mem i) (scratchRecord rt scratch mem j)
      else scratchRecord rt scratch mem k := by
  rw [suppressRecord]
  by_cases hk : k = j
  · subst hk
    rw [if_pos rfl, struck, strike]
    by_cases dead : feq (scratchRecord rt scratch mem k).conf 0
    · rw [if_pos dead, if_neg fun h => h.1 dead]
    · by_cases close : p.iou_threshold < vision_models_box_iou (scratchRecord rt scratch mem i)
          (scratchRecord rt scratch mem k)
      · rw [if_neg dead, if_pos close, if_pos ⟨dead, close⟩, scratchRecord_dropRecord, if_pos rfl]
      · rw [if_neg dead, if_neg close, if_neg fun h => close h.2]
  · rw [if_neg hk]
    split
    · rfl
    · split
      · rw [scratchRecord_dropRecord, if_neg hk]
      · rfl

/-- The inner loop strikes a range of records that lies behind record `i`. -/
theorem scratchRecord_foldl_suppressRecord (mem : Memory F) {i start : Nat} (behind : i < start)
    (len k : Nat) :
    scratchRecord rt scratch ((List.range' start len).foldl (suppressRecord rt p scratch i) mem) k =
      if start ≤ k ∧ k < start + len then
        struck p (scratchRecord rt scratch mem i) (scratchRecord rt scratch mem k)
      else scratchRecord rt scratch mem k := by
  induction len generalizing start mem with
  | zero =>
      rw [if_neg (by omega)]
      rfl
  | succ len ih =>
      have at_i := scratchRecord_suppressRecord rt p scratch mem i start i
      have at_k := scratchRecord_suppressRecord rt p scratch mem i start k
      rw [if_neg behind.ne] at at_i
      rw [List.range'_succ, List.foldl_cons, ih _ (Nat.lt_succ_of_lt behind), at_i, at_k]
      by_cases hk : k = start
      · rw [if_neg (by omega), if_pos hk, if_pos (by omega), hk]
      · rw [if_neg hk]
        split <;> split <;> first | rfl | omega

/-- The outer body leaves the records up to `i` alone. -/
theorem scratchRecord_suppressBehind (mem : Memory F) (n : Nat) {i j : Nat} (before : j ≤ i) :
    scratchRecord rt scratch (suppressBehind rt p scratch n mem i) j =
      scratchRecord rt scratch mem j := by
  rw [suppressBehind]
  split
  · rfl
  · rw [scratchRecord_foldl_suppressRecord rt p scratch mem (Nat.lt_succ_self i),
      if_neg (by omega)]

/-- The outer body strikes the records behind `i`. -/
theorem loadRecords_suppressBehind (mem : Memory F) (i len : Nat) :
    rt.loadRecords (suppressBehind rt p scratch (i + 1 + len) mem i) scratch (i + 1) len =
      strikeAll (Suppresses p) Alive OdPpOutBuffer.drop (scratchRecord rt scratch mem i)
        (rt.loadRecords mem scratch (i + 1) len) := by
  rw [suppressBehind, strikeAll]
  by_cases dead : feq (scratchRecord rt scratch mem i).conf 0
  · rw [if_pos dead, if_neg fun h : Alive _ => h dead]
  · rw [if_neg dead, if_pos (show Alive _ from dead), Runtime.loadRecords, Runtime.loadRecords,
      List.map_map]
    apply List.map_congr_left
    intro k hk
    rw [List.mem_range'_1] at hk
    refine (scratchRecord_foldl_suppressRecord rt p scratch mem (Nat.lt_succ_self i) _ k).trans ?_
    rw [if_pos (by omega)]
    rfl

/-- The double loop is a sweep over the records. -/
theorem loadRecords_foldl_suppressBehind (mem : Memory F) (i len : Nat) :
    let mem' := (List.range' i len).foldl (suppressBehind rt p scratch (i + len)) mem
    rt.loadRecords mem' scratch i len =
        sweep (Suppresses p) Alive OdPpOutBuffer.drop (rt.loadRecords mem scratch i len) ∧
      ∀ j < i, scratchRecord rt scratch mem' j = scratchRecord rt scratch mem j := by
  induction len generalizing i mem with
  | zero =>
      refine ⟨?_, fun _ _ => rfl⟩
      rw [rt.loadRecords_zero, rt.loadRecords_zero, sweep]
  | succ len ih =>
      have total : i + (len + 1) = i + 1 + len := by omega
      intro mem'
      obtain ⟨rest, before⟩ := ih (suppressBehind rt p scratch (i + 1 + len) mem i) (i + 1)
      have turn : mem' = (List.range' (i + 1) len).foldl (suppressBehind rt p scratch (i + 1 + len))
          (suppressBehind rt p scratch (i + 1 + len) mem i) := by
        simp only [mem', total, List.range'_succ, List.foldl_cons]
      have same : ∀ j ≤ i, scratchRecord rt scratch mem' j = scratchRecord rt scratch mem j := by
        intro j hj
        rw [turn, before j (by omega), scratchRecord_suppressBehind rt p scratch mem _ hj]
      refine ⟨?_, fun j hj => same j (by omega)⟩
      have first := same i (Nat.le_refl i)
      rw [scratchRecord, scratchRecord] at first
      rw [rt.loadRecords_succ, rt.loadRecords_succ, sweep, first, turn, rest,
        loadRecords_suppressBehind]
      rfl

/-! ## The limit -/

/-- The loop that counts is a cut; the record behind the last has no part in it. -/
theorem loadRecords_foldl_limitRecord (s : Memory F × Nat) (i len : Nat) :
    let s' := (List.range' i (len + 1)).foldl (limitRecord rt p scratch) s
    rt.loadRecords s'.1 scratch i len =
        cut Alive OdPpOutBuffer.drop (p.max_boxes_limit - s.2)
          (rt.loadRecords s.1 scratch i len) ∧
      ∀ j < i, scratchRecord rt scratch s'.1 j = scratchRecord rt scratch s.1 j := by
  have one : ∀ (s : Memory F × Nat) (i j : Nat), j ≠ i →
      scratchRecord rt scratch (limitRecord rt p scratch s i).1 j =
        scratchRecord rt scratch s.1 j := by
    intro s i j hj
    rw [limitRecord]
    split
    · rfl
    · rw [scratchRecord_dropRecord, if_neg hj]
  induction len generalizing i s with
  | zero =>
      refine ⟨?_, fun j hj => one s i j (by omega)⟩
      rw [rt.loadRecords_zero, rt.loadRecords_zero, cut]
  | succ len ih =>
      intro s'
      obtain ⟨rest, before⟩ := ih (limitRecord rt p scratch s i) (i + 1)
      have turn : s' = (List.range' (i + 1) (len + 1)).foldl (limitRecord rt p scratch)
          (limitRecord rt p scratch s i) := by
        simp only [s', List.range'_succ, List.foldl_cons]
      have behind : rt.loadRecords (limitRecord rt p scratch s i).1 scratch (i + 1) len =
          rt.loadRecords s.1 scratch (i + 1) len :=
        rt.loadRecords_congr fun j hj _ => one s i j (by omega)
      refine ⟨?_, fun j hj => ?_⟩
      · have first := before i (Nat.lt_succ_self i)
        rw [← turn] at first
        rw [scratchRecord] at first
        rw [rt.loadRecords_succ, rt.loadRecords_succ, first, turn, rest, behind, cut,
          limitRecord]
        by_cases room : s.2 < p.max_boxes_limit ∧ ¬ feq (scratchRecord rt scratch s.1 i).conf 0
        · rw [if_pos room, if_pos ⟨by omega, room.2⟩, Nat.sub_sub]
          rfl
        · rw [if_neg room, if_neg fun h => room ⟨by omega, h.2⟩, scratchRecord_dropRecord,
            if_pos rfl]
          rfl
      · rw [turn, before j (by omega), one s i j (by omega)]

/-! ## The filters -/

section Filters

variable (sorted : ∀ (k : Int) l, (rt.qsort (yolov2_nms_comparator k) l).length = l.length)

/-- What one class makes of the list of records. -/
def filteredClass (items : List (OdPpOutBuffer F)) (k : Nat) : List (OdPpOutBuffer F) :=
  cut Alive OdPpOutBuffer.drop p.max_boxes_limit
    (sweep (Suppresses p) Alive OdPpOutBuffer.drop (rt.qsort (yolov2_nms_comparator k) items))

include sorted

theorem loadRecords_filterClass (mem : Memory F) (n k : Nat) :
    rt.loadRecords (filterClass rt p scratch n mem k) scratch 0 n =
      filteredClass rt p (rt.loadRecords mem scratch 0 n) k := by
  set items := rt.qsort (yolov2_nms_comparator k) (rt.loadRecords mem scratch 0 n) with h
  have length : items.length = n := by rw [h, sorted, rt.length_loadRecords]
  have stored := (rt.loadRecords_storeRecords mem scratch 0 items).1
  have swept :=
    (loadRecords_foldl_suppressBehind rt p scratch (mem.storeRecords scratch items) 0 n).1
  have limited := (loadRecords_foldl_limitRecord rt p scratch
    ((List.range' 0 n).foldl (suppressBehind rt p scratch n) (mem.storeRecords scratch items), 0) 0
    n).1
  rw [length, Nat.mul_zero, Nat.add_zero] at stored
  rw [Nat.zero_add, stored] at swept
  rw [Nat.sub_zero, swept] at limited
  rw [filterClass, filteredClass, List.range_eq_range', List.range_eq_range', ← h]
  exact limited

/-- The filter in memory is the filter on lists. -/
theorem loadRecords_nmsFiltering (mem : Memory F) (n : Nat) :
    rt.loadRecords (yolov2_pp_nmsFiltering_centroid rt p scratch n mem) scratch 0 n =
      (List.range p.nb_classes).foldl (filteredClass rt p) (rt.loadRecords mem scratch 0 n) := by
  rw [yolov2_pp_nmsFiltering_centroid]
  induction p.nb_classes with
  | zero => rfl
  | succ m ih =>
      rw [List.range_succ, List.foldl_append, List.foldl_append, List.foldl_cons, List.foldl_nil,
        List.foldl_cons, List.foldl_nil, loadRecords_filterClass rt p scratch sorted, ih]

end Filters

/-- One turn of the final copy. -/
theorem boxes_copyRecord (mem : Memory F) (out : OdPpOut F) (i : Nat) :
    (copyRecord rt scratch mem out i).boxes =
      out.boxes ++ [scratchRecord rt scratch mem i].filter fun r => Alive r := by
  rw [copyRecord]
  by_cases alive : Alive (scratchRecord rt scratch mem i)
  · rw [if_neg alive, List.filter_cons_of_pos (by simpa using alive), List.filter_nil,
      OdPpOut.boxes, OdPpOut.boxes, List.range_succ, List.map_append, List.map_singleton]
    simp only [if_true]
    congr 1
    apply List.map_congr_left
    intro j hj
    exact if_neg (List.mem_range.mp hj).ne
  · rw [if_pos (not_not.mp alive), List.filter_cons_of_neg (by simpa using alive), List.filter_nil,
      List.append_nil]

/-- The final copy takes the records that are alive. -/
theorem boxes_scoreFiltering (mem : Memory F) (pOutBuff : Nat → OdPpOutBuffer F) (n : Nat) :
    (yolov2_pp_scoreFiltering_centroid rt scratch n mem pOutBuff).boxes =
      (rt.loadRecords mem scratch 0 n).filter fun r => Alive r := by
  rw [yolov2_pp_scoreFiltering_centroid]
  induction n with
  | zero => rfl
  | succ n ih =>
      rw [List.range_succ, List.foldl_append, rt.loadRecords_concat, List.filter_append, ← ih,
        Nat.zero_add, List.foldl_cons, List.foldl_nil, boxes_copyRecord]
      rfl

end PeopleDetection
