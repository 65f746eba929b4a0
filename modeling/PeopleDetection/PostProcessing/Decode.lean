import PeopleDetection.Library.Loops
import PeopleDetection.PostProcessing.Yolov2

/-!
# Decoding in place

The decoder writes its records into the tensor that it still reads. A record is no longer
than an anchor, so the records never overtake the anchors: decoding in place finds the
boxes of the original tensor, for every number of classes.
-/

namespace PeopleDetection

open Library CFloat

variable {F : Type} [Zero F] [CFloat F] (rt : Runtime F) (p : OdYolov2PpStaticParam F)

/-! ## The boxes of a tensor -/

/-- The box that the words of an anchor stand for. -/
def anchorBox (row col anch : Nat) (v : Nat → F) : Option (OdPpOutBuffer F) :=
  if p.nb_classes = 1 then
    if computedThreshold rt p ≤ v OBJECTNESS then
      some ⟨x_center rt p col v, y_center rt p row v, box_width rt p anch v,
        box_height rt p anch v, vision_models_sigmoid_f rt (v OBJECTNESS), 0⟩
    else none
  else if p.conf_threshold ≤ (best_score rt p v).1 then
    some ⟨x_center rt p col v, y_center rt p row v, box_width rt p anch v,
      box_height rt p anch v, (best_score rt p v).1, (best_score rt p v).2⟩
  else none

/-- The words of anchor number `e` of a tensor. -/
def tensorWords (tensor : Nat → F) (e k : Nat) : F := tensor (anch_stride p * e + k)

/-- The boxes of a tensor, in the order of its anchors. -/
def decoded (tensor : Nat → F) : List (OdPpOutBuffer F) :=
  (List.range p.grid_width).flatMap fun row =>
    (List.range p.grid_height).flatMap fun col =>
      (List.range p.nb_anchors).flatMap fun anch =>
        (anchorBox rt p row col anch
          (tensorWords p tensor ((row * p.grid_height + col) * p.nb_anchors + anch))).toList

/-! ## One anchor -/

/-- The innermost loop body, on a tensor that holds its own records. -/
def decodeAnchor (base row col anch : Nat) (s : Decoding F) : Decoding F :=
  if p.nb_classes = 1 then singleClassAnchor rt p base base row col anch s
  else multiClassAnchor rt p base base row col anch s

/-- A decoder state with one more anchor read, and its box stored if there is one. -/
def Decoding.advance (base : Nat) (s : Decoding F) : Option (OdPpOutBuffer F) → Decoding F
  | none => { s with el_offset := s.el_offset + anch_stride p }
  | some r => ⟨s.mem.storeRecord (base + RECORD * s.count_detect) r, s.count_detect + 1,
      s.el_offset + anch_stride p⟩

variable {p}

/-- With one class, an anchor is as long as a record, so that the record being written is
the anchor being read or lies before it. -/
theorem singleClassAnchor_eq (single : p.nb_classes = 1) {base row col anch : Nat} {s : Decoding F}
    (behind : RECORD * s.count_detect = s.el_offset ∨
      RECORD * s.count_detect + RECORD ≤ s.el_offset) :
    singleClassAnchor rt p base base row col anch s =
      s.advance p base (anchorBox rt p row col anch (anchorWords rt base s s.mem)) := by
  simp only [RECORD] at behind
  rw [singleClassAnchor, anchorBox, if_pos single]
  by_cases h : computedThreshold rt p ≤ anchorWords rt base s s.mem OBJECTNESS
  · rw [if_pos h, if_pos h, Decoding.advance]
    simp only [x_center, y_center, box_width, box_height, anchorWords, RECORD, CONF, CLASS_INDEX,
      Nat.add_zero, Decoding.mk.injEq, and_true]
    simp (disch := omega) only [rt.loadFloat_store_of_ne]
    funext addr
    simp only [Memory.storeRecord, Memory.store_apply, CONF, CLASS_INDEX]
    split_ifs <;> first | rfl | omega
  · rw [if_neg h, if_neg h]
    rfl

/-- With more classes, a record starts no later than the anchor being read, and each word
is stored after the words it could cover were read. -/
theorem multiClassAnchor_eq (multi : p.nb_classes ≠ 1) {base row col anch : Nat} {s : Decoding F}
    (behind : RECORD * s.count_detect ≤ s.el_offset) :
    multiClassAnchor rt p base base row col anch s =
      s.advance p base (anchorBox rt p row col anch (anchorWords rt base s s.mem)) := by
  simp only [RECORD] at behind
  rw [multiClassAnchor, anchorBox, if_neg multi]
  by_cases h : p.conf_threshold ≤ (best_score rt p (anchorWords rt base s s.mem)).1
  · rw [if_pos h, if_pos h, Decoding.advance]
    simp only [x_center, y_center, box_width, box_height, anchorWords, RECORD, Nat.add_zero]
    simp (disch := omega) only [rt.loadFloat_store_of_ne]
    rfl
  · rw [if_neg h, if_neg h]
    rfl

/-! ## All anchors -/

variable (p)

/-- The decoder has read `e` anchors of a tensor and found these boxes. -/
structure Decoded (original : Memory F) (base e : Nat) (found : List (OdPpOutBuffer F))
    (s : Decoding F) : Prop where
  el_offset : s.el_offset = anch_stride p * e
  count : s.count_detect = found.length
  le : found.length ≤ e
  records : rt.loadRecords s.mem base 0 found.length = found
  unread : ∀ k, anch_stride p * e ≤ k → s.mem (base + k) = original (base + k)

variable {p} {rt} {original : Memory F} {base e : Nat} {found : List (OdPpOutBuffer F)}
  {s : Decoding F}

namespace Decoded

omit [Zero F] [CFloat F] in
theorem words (h : Decoded rt p original base e found s) :
    anchorWords rt base s s.mem = tensorWords p (fun k => rt.loadFloat original (base + k)) e := by
  funext k
  rw [anchorWords, tensorWords, h.el_offset, Nat.add_assoc, Runtime.loadFloat,
    h.unread _ (Nat.le_add_right _ _), Runtime.loadFloat]

omit [Zero F] [CFloat F] in
/-- Storing the box of the anchor just read. -/
theorem advance (h : Decoded rt p original base e found s) (fits : RECORD ≤ anch_stride p)
    (box : Option (OdPpOutBuffer F)) :
    Decoded rt p original base (e + 1) (found ++ box.toList) (s.advance p base box) := by
  have far : RECORD * found.length ≤ anch_stride p * e := Nat.mul_le_mul fits h.le
  cases box with
  | none =>
      rw [Option.toList_none, List.append_nil]
      exact
        { el_offset := by rw [Decoding.advance, h.el_offset, Nat.mul_succ]
          count := h.count
          le := Nat.le_succ_of_le h.le
          records := h.records
          unread := fun k hk => h.unread k (by rw [Nat.mul_succ] at hk; omega) }
  | some r =>
      rw [Option.toList_some, Decoding.advance, h.count]
      exact
        { el_offset := by rw [h.el_offset, Nat.mul_succ]
          count := by rw [List.length_append, List.length_singleton]
          le := by
            rw [List.length_append, List.length_singleton]
            exact Nat.succ_le_succ h.le
          records := by
            rw [List.length_append, List.length_singleton, rt.loadRecords_concat, Nat.zero_add,
              rt.loadRecord_storeRecord]
            congr 1
            refine Eq.trans (rt.loadRecords_congr fun j _ hj => ?_) h.records
            exact rt.loadRecord_storeRecord_of_ne _ _ _ (by omega)
          unread := fun k hk => by
            rw [Nat.mul_succ] at hk
            exact (Memory.storeRecord_of_lt _ _ (Or.inr (by omega))).trans (h.unread k (by omega)) }

/-- One turn of the innermost loop. -/
theorem decodeAnchor (h : Decoded rt p original base e found s) (fits : RECORD ≤ anch_stride p)
    (row col anch : Nat) :
    Decoded rt p original base (e + 1)
      (found ++ (anchorBox rt p row col anch
        (tensorWords p (fun k => rt.loadFloat original (base + k)) e)).toList)
      (decodeAnchor rt p base row col anch s) := by
  have far : RECORD * found.length ≤ anch_stride p * e := Nat.mul_le_mul fits h.le
  rw [← h.words]
  by_cases single : p.nb_classes = 1
  · have stride : anch_stride p = RECORD := by
      rw [anch_stride, single]
      rfl
    rw [PeopleDetection.decodeAnchor, if_pos single, singleClassAnchor_eq rt single]
    · exact h.advance fits _
    · rw [h.count, h.el_offset, stride]
      simp only [RECORD]
      have le := h.le
      omega
  · rw [PeopleDetection.decodeAnchor, if_neg single, multiClassAnchor_eq rt single]
    · exact h.advance fits _
    · rw [h.count, h.el_offset]
      exact far

end Decoded

variable (rt p)

/-- In place, the decoder finds the boxes of the original tensor. -/
theorem yolov2_pp_getNNBoxes_centroid_inPlace (fits : RECORD ≤ anch_stride p) (mem : Memory F)
    (base : Nat) :
    let s := yolov2_pp_getNNBoxes_centroid rt p base base mem
    let found := decoded rt p fun k => rt.loadFloat mem (base + k)
    s.count_detect = found.length ∧ rt.loadRecords s.mem base 0 s.count_detect = found := by
  let box row col anch e := (anchorBox rt p row col anch
    (tensorWords p (fun k => rt.loadFloat mem (base + k)) e)).toList
  have anchors : ∀ row col {e l s}, Decoded rt p mem base e l s →
      Decoded rt p mem base (e + p.nb_anchors)
        (l ++ (List.range p.nb_anchors).flatMap fun anch => box row col anch (e + anch))
        ((List.range p.nb_anchors).foldl
          (fun s anch => decodeAnchor rt p base row col anch s) s) := by
    intro row col e l s h
    have loop := foldl_range_collect (P := Decoded rt p mem base) (a := e) (m := 1)
      (fun anch l s ha => ha.decodeAnchor fits row col anch) p.nb_anchors h
    simpa only [Nat.mul_one] using loop
  have columns : ∀ row {e l s}, Decoded rt p mem base e l s →
      Decoded rt p mem base (e + p.grid_height * p.nb_anchors)
        (l ++ (List.range p.grid_height).flatMap fun col =>
          (List.range p.nb_anchors).flatMap fun anch =>
            box row col anch (e + col * p.nb_anchors + anch))
        ((List.range p.grid_height).foldl (fun s col =>
          (List.range p.nb_anchors).foldl
            (fun s anch => decodeAnchor rt p base row col anch s) s) s) :=
    fun row => foldl_range_collect (fun col _ _ h => anchors row col h) p.grid_height
  have start : Decoded rt p mem base 0 [] ⟨mem, 0, 0⟩ :=
    ⟨rfl, rfl, Nat.le_refl 0, rfl, fun _ _ => rfl⟩
  have rows := foldl_range_collect (fun row _ _ h => columns row h) p.grid_width start
  have order : ∀ row col anch,
      0 + row * (p.grid_height * p.nb_anchors) + col * p.nb_anchors + anch =
        (row * p.grid_height + col) * p.nb_anchors + anch := by
    intro row col anch
    rw [Nat.zero_add, ← Nat.mul_assoc, ← Nat.add_mul]
  simp only [order, List.nil_append] at rows
  exact ⟨rows.count, rows.count ▸ rows.records⟩

end PeopleDetection
