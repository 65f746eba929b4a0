import PeopleDetection.Overlap
import PeopleDetection.PostProcessing.Yolov2

/-!
# Two measures of overlap

The scoring compares boxes by their corners with `iou_xyxy`, the suppression compares records
by their centres with `vision_models_box_iou`. In exact arithmetic both are the quotient of the
same intersection and the same union. The scoring adds a millionth to the union; the
suppression tests for zero instead.
-/

namespace PeopleDetection

open Library

/-! ## The division -/

/-- The numerator and the denominator of the division in `iou_xyxy`, if it is reached. -/
def iou_division {F : Type} [Zero F] [CFloat F] (a b : BoxXyxy F) : Option (F × F) :=
  let w := MIN a.x1 b.x1 - MAX a.x0 b.x0
  let h := MIN a.y1 b.y1 - MAX a.y0 b.y0
  if w ≤ 0 ∨ h ≤ 0 then none
  else
    let inter := w * h
    let area_a := MAX 0 (a.x1 - a.x0) * MAX 0 (a.y1 - a.y0)
    let area_b := MAX 0 (b.x1 - b.x0) * MAX 0 (b.y1 - b.y0)
    if area_a ≤ 0 ∨ area_b ≤ 0 then none
    else some (inter, area_a + area_b - inter + epsilon)

/-- Without a division the result is zero. -/
theorem iou_xyxy_eq_division {F : Type} [Zero F] [CFloat F] (a b : BoxXyxy F) :
    iou_xyxy a b = ((iou_division a b).map fun q => q.1 / q.2).getD 0 := by
  simp only [iou_xyxy, iou_division]
  split
  · rfl
  · split <;> rfl

namespace BoxXyxy

variable (a b : BoxXyxy ℚ)

/-- The interior of a box. -/
def Inside (p : ℚ × ℚ) : Prop := a.spanX.Inside p.1 ∧ a.spanY.Inside p.2

theorem inside_inter {a b : BoxXyxy ℚ} {p : ℚ × ℚ} :
    (a.inter b).Inside p ↔ a.Inside p ∧ b.Inside p := by
  change (a.spanX.meet b.spanX).Inside p.1 ∧ (a.spanY.meet b.spanY).Inside p.2 ↔ _
  rw [Span.inside_meet, Span.inside_meet]
  exact and_and_and_comm

/-- A box has an area when there is a point inside. -/
theorem area_pos_iff : 0 < a.area ↔ ∃ p, a.Inside p := by
  have factors : 0 < a.area ↔ 0 < a.spanX.extent ∧ 0 < a.spanY.extent := by
    constructor
    · intro h
      exact ⟨pos_of_mul_pos_left h (Span.extent_nonneg _),
        pos_of_mul_pos_right h (Span.extent_nonneg _)⟩
    · exact fun h => mul_pos h.1 h.2
  rw [factors, Span.extent_pos_iff, Span.extent_pos_iff]
  exact ⟨fun ⟨⟨x, hx⟩, ⟨y, hy⟩⟩ => ⟨(x, y), hx, hy⟩,
    fun ⟨p, hx, hy⟩ => ⟨⟨p.1, hx⟩, ⟨p.2, hy⟩⟩⟩

/-- A division that is reached divides by the union and a millionth. -/
theorem iou_division_eq {q : ℚ × ℚ} (h : iou_division a b = some q) :
    q = ((a.inter b).area, a.area + b.area - (a.inter b).area + 1 / 1000000) := by
  have split : iou_division a b =
      if a.spanX.overlap b.spanX ≤ 0 ∨ a.spanY.overlap b.spanY ≤ 0 then none
      else if a.area ≤ 0 ∨ b.area ≤ 0 then none
      else some (a.spanX.overlap b.spanX * a.spanY.overlap b.spanY,
        a.area + b.area - a.spanX.overlap b.spanX * a.spanY.overlap b.spanY + 1 / 1000000) := by
    simp only [iou_division, MAX_eq, MIN_eq]
    rfl
  rw [split, Option.ite_none_left_eq_some, Option.ite_none_left_eq_some, Option.some.injEq] at h
  obtain ⟨meets, -, rfl⟩ := h
  obtain ⟨hx, hy⟩ := not_or.mp meets
  rw [(area_inter_of_pos (not_le.mp hx) (not_le.mp hy)).1]

/-- The quotient of the intersection and the union of two boxes. -/
theorem iou_xyxy_mem :
    0 < a.area + b.area - (a.inter b).area + 1 / 1000000 ∧ 0 ≤ iou_xyxy a b ∧
      iou_xyxy a b < 1 ∧ (0 < iou_xyxy a b ↔ 0 < (a.inter b).area) := by
  rw [iou_xyxy_eq]
  exact quotient_mem (by norm_num) (area_nonneg _) (area_inter_le_left a b)
    (area_inter_le_right a b)

end BoxXyxy

/-! ## Boxes in centre form -/

namespace OdPpOutBuffer

variable {a b : OdPpOutBuffer ℚ}

/-- The corners of a record. -/
def corners (r : OdPpOutBuffer ℚ) : BoxXyxy ℚ where
  x0 := r.x_center - r.width / 2
  y0 := r.y_center - r.height / 2
  x1 := r.x_center + r.width / 2
  y1 := r.y_center + r.height / 2

/-- Both sizes are positive. -/
def Sized (r : OdPpOutBuffer ℚ) : Prop := 0 < r.width ∧ 0 < r.height

theorem Sized.area_corners (h : a.Sized) : a.corners.area = a.width * a.height := by
  have sides : a.corners.spanX.length = a.width ∧ a.corners.spanY.length = a.height := by
    simp only [BoxXyxy.spanX, BoxXyxy.spanY, corners, Span.length]
    constructor <;> ring
  rw [BoxXyxy.area, Span.extent_of_pos (sides.1 ▸ h.1), Span.extent_of_pos (sides.2 ▸ h.2),
    sides.1, sides.2]

/-- `overlap` on the axis of two centres. -/
theorem overlap_eq (x1 w1 x2 w2 : ℚ) :
    overlap x1 w1 x2 w2 = (⟨x1 - w1 / 2, x1 + w1 / 2⟩ : Span ℚ).overlap
      ⟨x2 - w2 / 2, x2 + w2 / 2⟩ := by
  change (MIN (x1 + w1 / 2) (x2 + w2 / 2) : ℚ) - MAX (x1 - w1 / 2) (x2 - w2 / 2) = _
  rw [MAX_eq, MIN_eq]
  rfl

theorem box_intersection_eq (a b : OdPpOutBuffer ℚ) :
    box_intersection a b = (a.corners.inter b.corners).area := by
  have split : box_intersection a b =
      if a.corners.spanX.overlap b.corners.spanX < 0 ∨
        a.corners.spanY.overlap b.corners.spanY < 0 then 0
      else a.corners.spanX.overlap b.corners.spanX * a.corners.spanY.overlap b.corners.spanY := by
    simp only [box_intersection, overlap_eq]
    rfl
  rw [split]
  split
  · next apart =>
      exact (BoxXyxy.area_inter_of_apart (apart.imp le_of_lt le_of_lt)).symm
  · next meets =>
      obtain ⟨hx, hy⟩ := not_or.mp meets
      rw [not_lt] at hx hy
      exact (congrArg₂ (· * ·) (max_eq_right hx) (max_eq_right hy)).symm

/-- The suppression divides the intersection by the union. -/
theorem vision_models_box_iou_mul (ha : a.Sized) (hb : b.Sized) :
    let U := a.corners.area + b.corners.area - (a.corners.inter b.corners).area
    0 < U ∧ vision_models_box_iou a b * U = (a.corners.inter b.corners).area := by
  intro U
  have zero : ∀ v : ℚ, feq v 0 ↔ v = 0 := fun v =>
    ⟨fun h => le_antisymm h.1 h.2, fun h => ⟨h.le, h.ge⟩⟩
  have le_a := BoxXyxy.area_inter_le_left a.corners b.corners
  have pos_b : 0 < b.corners.area := hb.area_corners ▸ mul_pos hb.1 hb.2
  have pos : 0 < U := by
    simp only [U]
    linarith
  have union : box_union a b = U := by
    rw [box_union, box_intersection_eq, ← ha.area_corners, ← hb.area_corners]
  refine ⟨pos, ?_⟩
  simp only [vision_models_box_iou, union, box_intersection_eq, zero]
  by_cases none : (a.corners.inter b.corners).area = 0
  · rw [if_pos (Or.inl none), none, zero_mul]
  · rw [if_neg (not_or.mpr ⟨none, pos.ne'⟩), div_mul_cancel₀ _ pos.ne']

end OdPpOutBuffer

/-! ## Both measures -/

/-- `iou_xyxy` is the intersection over the union of any two boxes, and measures what the
suppression measures. -/
theorem iou_xyxy_intersection_over_union :
    (∀ a b : BoxXyxy ℚ,
      iou_xyxy a b = iou_xyxy b a ∧ 0 ≤ iou_xyxy a b ∧ iou_xyxy a b < 1 ∧
        (∀ q, iou_division a b = some q → 0 < q.2) ∧
        (0 < iou_xyxy a b ↔ ∃ p, a.Inside p ∧ b.Inside p) ∧
        iou_xyxy a b =
          (a.inter b).area / (a.area + b.area - (a.inter b).area + 1 / 1000000)) ∧
      ∀ a b : OdPpOutBuffer ℚ, a.Sized → b.Sized →
        let U := a.corners.area + b.corners.area - (a.corners.inter b.corners).area
        iou_xyxy a.corners b.corners * (U + 1 / 1000000) = vision_models_box_iou a b * U := by
  constructor
  · intro a b
    obtain ⟨union, nonneg, below, pos⟩ := a.iou_xyxy_mem b
    refine ⟨?_, nonneg, below, ?_, ?_, iou_xyxy_eq a b⟩
    · rw [iou_xyxy_eq, iou_xyxy_eq, BoxXyxy.inter_comm b a, add_comm b.area]
    · intro q reached
      rwa [a.iou_division_eq b reached]
    · rw [pos, BoxXyxy.area_pos_iff]
      exact exists_congr fun _ => BoxXyxy.inside_inter
  · intro a b ha hb U
    obtain ⟨union, -⟩ := a.corners.iou_xyxy_mem b.corners
    rw [(OdPpOutBuffer.vision_models_box_iou_mul ha hb).2, iou_xyxy_eq,
      div_mul_cancel₀ _ union.ne']

/-- Two squares of side two that share a square of side one, by their corners and by their
centres. -/
theorem iou_xyxy_intersection_over_union_sample :
    (let a : BoxXyxy ℚ := ⟨0, 0, 2, 2⟩
      let b : BoxXyxy ℚ := ⟨1, 1, 3, 3⟩
      iou_xyxy a b < 1 ∧ iou_xyxy a b = 1000000 / 7000001) ∧
      (let a : OdPpOutBuffer ℚ := ⟨1, 1, 2, 2, 1, 0⟩
        let b : OdPpOutBuffer ℚ := ⟨2, 2, 2, 2, 1, 0⟩
        let U := a.corners.area + b.corners.area - (a.corners.inter b.corners).area
        U = 7 ∧ iou_xyxy a.corners b.corners * (U + 1 / 1000000) =
          vision_models_box_iou a b * U) :=
  ⟨⟨(iou_xyxy_intersection_over_union.1 ⟨0, 0, 2, 2⟩ ⟨1, 1, 3, 3⟩).2.2.1, by decide +kernel⟩,
    by decide +kernel, iou_xyxy_intersection_over_union.2 ⟨1, 1, 2, 2, 1, 0⟩ ⟨2, 2, 2, 2, 1, 0⟩
      ⟨by norm_num, by norm_num⟩ ⟨by norm_num, by norm_num⟩⟩

end PeopleDetection
