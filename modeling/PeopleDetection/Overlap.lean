import Mathlib.Tactic.NormNum
import Mathlib.Tactic.Ring
import PeopleDetection.Boxes
import PeopleDetection.Library.Spans

/-!
# Overlap and pixel boxes in exact arithmetic

Over the rational numbers, the overlap test is an inequality between the overlaps and the
lengths on the two axes, and the conversion of a detection treats each axis alike:
`pixelSpan` is what it makes of a centre and a size in pixels.
-/

namespace PeopleDetection

open Library

/-! ## The overlap test -/

theorem MAX_eq (a b : ℚ) : MAX a b = max a b := by
  rw [MAX, max_def]
  split_ifs <;> linarith

theorem MIN_eq (a b : ℚ) : MIN a b = min a b := by
  rw [MIN, min_def]
  split_ifs <;> linarith

/-- The two sides of a box. -/
def BoxXyxy.spanX (b : BoxXyxy ℚ) : Span ℚ := ⟨b.x0, b.x1⟩

def BoxXyxy.spanY (b : BoxXyxy ℚ) : Span ℚ := ⟨b.y0, b.y1⟩

namespace BoxXyxy

/-- The area of a box, zero if its corners are in the wrong order. -/
def area (b : BoxXyxy ℚ) : ℚ := b.spanX.extent * b.spanY.extent

/-- The intersection of two boxes. -/
def inter (a b : BoxXyxy ℚ) : BoxXyxy ℚ where
  x0 := max a.x0 b.x0
  y0 := max a.y0 b.y0
  x1 := min a.x1 b.x1
  y1 := min a.y1 b.y1

theorem area_nonneg (b : BoxXyxy ℚ) : 0 ≤ b.area :=
  mul_nonneg (Span.extent_nonneg _) (Span.extent_nonneg _)

theorem inter_comm (a b : BoxXyxy ℚ) : a.inter b = b.inter a := by
  simp only [inter, max_comm, min_comm]

theorem area_inter_le_left (a b : BoxXyxy ℚ) : (a.inter b).area ≤ a.area :=
  mul_le_mul (Span.extent_meet_le_left a.spanX b.spanX) (Span.extent_meet_le_left a.spanY b.spanY)
    (Span.extent_nonneg _) (Span.extent_nonneg _)

theorem area_inter_le_right (a b : BoxXyxy ℚ) : (a.inter b).area ≤ b.area :=
  inter_comm a b ▸ area_inter_le_left b a

/-- Two boxes that meet on both axes. -/
theorem area_inter_of_pos {a b : BoxXyxy ℚ} (hx : 0 < a.spanX.overlap b.spanX)
    (hy : 0 < a.spanY.overlap b.spanY) :
    (a.inter b).area = a.spanX.overlap b.spanX * a.spanY.overlap b.spanY ∧
      a.area = a.spanX.length * a.spanY.length := by
  constructor
  · exact congrArg₂ (· * ·) (Span.extent_of_pos (s := a.spanX.meet b.spanX) hx)
      (Span.extent_of_pos (s := a.spanY.meet b.spanY) hy)
  · rw [area, Span.extent_of_pos (hx.trans_le (Span.overlap_le_left _ _)),
      Span.extent_of_pos (hy.trans_le (Span.overlap_le_left _ _))]

/-- Two boxes that are apart on one axis. -/
theorem area_inter_of_apart {a b : BoxXyxy ℚ}
    (apart : a.spanX.overlap b.spanX ≤ 0 ∨ a.spanY.overlap b.spanY ≤ 0) :
    (a.inter b).area = 0 := by
  cases apart with
  | inl h => exact mul_eq_zero_of_left (Span.extent_of_nonpos (s := a.spanX.meet b.spanX) h) _
  | inr h => exact mul_eq_zero_of_right _ (Span.extent_of_nonpos (s := a.spanY.meet b.spanY) h)

end BoxXyxy

/-- `iou_xyxy` is the quotient of the intersection and the union, also for boxes that are
apart or inverted. -/
theorem iou_xyxy_eq (a b : BoxXyxy ℚ) :
    iou_xyxy a b =
      (a.inter b).area / (a.area + b.area - (a.inter b).area + 1 / 1000000) := by
  have split : iou_xyxy a b =
      if a.spanX.overlap b.spanX ≤ 0 ∨ a.spanY.overlap b.spanY ≤ 0 then 0
      else if a.area ≤ 0 ∨ b.area ≤ 0 then 0
      else a.spanX.overlap b.spanX * a.spanY.overlap b.spanY /
        (a.area + b.area - a.spanX.overlap b.spanX * a.spanY.overlap b.spanY + 1 / 1000000) := by
    simp only [iou_xyxy, MAX_eq, MIN_eq]
    rfl
  rw [split]
  by_cases apart : a.spanX.overlap b.spanX ≤ 0 ∨ a.spanY.overlap b.spanY ≤ 0
  · rw [if_pos apart, BoxXyxy.area_inter_of_apart apart, zero_div]
  · obtain ⟨hx, hy⟩ := not_or.mp apart
    rw [not_le] at hx hy
    obtain ⟨inter, -⟩ := BoxXyxy.area_inter_of_pos hx hy
    have pos : 0 < (a.inter b).area := inter ▸ mul_pos hx hy
    have pos_a := pos.trans_le (BoxXyxy.area_inter_le_left a b)
    have pos_b := pos.trans_le (BoxXyxy.area_inter_le_right a b)
    rw [if_neg apart, if_neg (not_or.mpr ⟨not_le.mpr pos_a, not_le.mpr pos_b⟩), inter]

/-- The overlap test on two axes. -/
theorem overlaps_iff (a b : BoxXyxy ℚ) :
    overlaps a b ↔ 0 < a.spanX.overlap b.spanX ∧ 0 < a.spanY.overlap b.spanY ∧
      a.spanX.length * a.spanY.length + b.spanX.length * b.spanY.length + 1 / 1000000 ≤
        3 * (a.spanX.overlap b.spanX * a.spanY.overlap b.spanY) := by
  rw [overlaps, iou_xyxy_eq, show (half : ℚ) = 1 / 2 from rfl]
  by_cases apart : a.spanX.overlap b.spanX ≤ 0 ∨ a.spanY.overlap b.spanY ≤ 0
  · rw [BoxXyxy.area_inter_of_apart apart, zero_div]
    constructor
    · intro h
      norm_num at h
    · rintro ⟨hx, hy, -⟩
      cases apart with
      | inl h => exact absurd h (not_le.mpr hx)
      | inr h => exact absurd h (not_le.mpr hy)
  · obtain ⟨hx, hy⟩ := not_or.mp apart
    rw [not_le] at hx hy
    obtain ⟨inter, area_a⟩ := BoxXyxy.area_inter_of_pos hx hy
    obtain ⟨-, area_b⟩ := BoxXyxy.area_inter_of_pos (a := b) (b := a)
      (Span.overlap_comm a.spanX b.spanX ▸ hx) (Span.overlap_comm a.spanY b.spanY ▸ hy)
    rw [half_le_quotient_iff (by norm_num) (inter ▸ mul_pos hx hy)
      (BoxXyxy.area_inter_le_left a b) (BoxXyxy.area_inter_le_right a b), inter, area_a, area_b]
    exact ⟨fun h => ⟨hx, hy, h⟩, fun h => h.2.2⟩

/-! ## Detections in pixels -/

/-- `clamp_point` on one axis; both axes have 224 pixels. -/
def clampPixel (x : Int) : Int := max 0 (min 223 x)

theorem clamp_point_eq (x y : Int) : clamp_point x y = (clampPixel x, clampPixel y) := by
  simp only [clamp_point, clampPixel, NN_WIDTH, NN_HEIGHT, Prod.mk.injEq]
  constructor <;> split_ifs <;> omega

theorem clampPixel_mem (x : Int) : 0 ≤ clampPixel x ∧ clampPixel x ≤ 223 := by
  rw [clampPixel]
  omega

/-- The corner and the size on one axis, for the converted centre and the converted size. -/
def pixelAxis (c s : Int) : Int × Int :=
  let x0 := clampPixel (i32 (c - Int.tdiv (i32 (s + 1)) 2))
  let x1 := clampPixel (i32 (c + Int.tdiv (i32 (s + 1)) 2))
  (x0, i32 (x1 - x0 + 1))

/-- The conversion of a detection treats each axis alike. -/
theorem model_detection_to_box_eq {F : Type} [Zero F] [CFloat F] (d : OdPpOutBuffer F) :
    let xs := pixelAxis (CFloat.toInt (CFloat.ofInt NN_WIDTH * d.x_center))
      (CFloat.toInt (CFloat.ofInt NN_WIDTH * d.width))
    let ys := pixelAxis (CFloat.toInt (CFloat.ofInt NN_HEIGHT * d.y_center))
      (CFloat.toInt (CFloat.ofInt NN_HEIGHT * d.height))
    model_detection_to_box d = ⟨xs.1, ys.1, xs.2, ys.2⟩ := by
  simp only [model_detection_to_box, clamp_point_eq]
  rfl

/-- Half of a size that is not the largest `int`. -/
theorem half_eq {s : Int} (s0 : 0 ≤ s) (s1 : s < INT_MAX) :
    Int.tdiv (i32 (s + 1)) 2 = (s + 1) / 2 := by
  simp only [INT_MAX] at s1
  rw [i32_eq_self (by simp only [INT_MIN]; omega) (by simp only [INT_MAX]; omega),
    Int.tdiv_eq_ediv_of_nonneg (by omega)]

/-- Nothing overflows on an axis unless the size is the largest `int`. -/
theorem pixelAxis_eq {c s : Int} (c0 : 0 ≤ c) (c1 : c ≤ 1000000) (s0 : 0 ≤ s)
    (s1 : s < INT_MAX) :
    let x0 := clampPixel (c - (s + 1) / 2)
    let x1 := clampPixel (c + (s + 1) / 2)
    pixelAxis c s = (x0, x1 - x0 + 1) := by
  intro x0 x1
  have b0 := clampPixel_mem (c - (s + 1) / 2)
  have b1 := clampPixel_mem (c + (s + 1) / 2)
  have fits : ∀ n : Int, -1100000000 ≤ n → n ≤ 1100000000 → i32 n = n := fun n lo hi =>
    i32_eq_self (by simp only [INT_MIN]; omega) (by simp only [INT_MAX]; omega)
  rw [pixelAxis, half_eq s0 s1]
  simp only [INT_MAX] at s1
  rw [fits (c - (s + 1) / 2) (by omega) (by omega), fits (c + (s + 1) / 2) (by omega) (by omega),
    fits _ (by omega) (by omega)]

/-- The pixels of a detection on one axis, for its centre and its size in pixels. The last
pixel belongs to the box. -/
def pixelSpan (centre size : ℚ) : Span ℚ where
  lo := clampPixel (⌊centre⌋ - (⌊size⌋ + 1) / 2)
  hi := clampPixel (⌊centre⌋ + (⌊size⌋ + 1) / 2) + 1

/-- A length whose conversion does not saturate. -/
def Convertible (x : ℚ) : Prop := 0 ≤ x ∧ x < INT_MAX

theorem Convertible.toInt_eq {x : ℚ} (h : Convertible x) :
    saturate x = ⌊x⌋ ∧ 0 ≤ ⌊x⌋ ∧ ⌊x⌋ < INT_MAX := by
  have lo : 0 ≤ ⌊x⌋ := Int.floor_nonneg.mpr h.1
  have hi : ⌊x⌋ < INT_MAX := Int.floor_lt.mpr h.2
  refine ⟨?_, lo, hi⟩
  rw [saturate, if_pos h.1]
  simp only [INT_MIN, INT_MAX] at hi ⊢
  omega

/-- A position near the frame. -/
def Moderate (x : ℚ) : Prop := 0 ≤ x ∧ x ≤ 1000000

theorem Moderate.convertible {x : ℚ} (h : Moderate x) : Convertible x :=
  ⟨h.1, by
    simp only [INT_MAX]
    push_cast
    linarith [h.2]⟩

theorem Moderate.floor_le {x : ℚ} (h : Moderate x) : ⌊x⌋ ≤ 1000000 :=
  Int.floor_le_iff.mpr (by
    push_cast
    linarith [h.2])

/-- The two sides of the box that a detection is converted to. -/
theorem spans_model_detection_to_box {d : OdPpOutBuffer ℚ}
    (xc : Moderate (224 * d.x_center)) (yc : Moderate (224 * d.y_center))
    (w : Convertible (224 * d.width)) (h : Convertible (224 * d.height)) :
    (dbox_to_xyxy (model_detection_to_box d) : BoxXyxy ℚ).spanX =
        pixelSpan (224 * d.x_center) (224 * d.width) ∧
      (dbox_to_xyxy (model_detection_to_box d) : BoxXyxy ℚ).spanY =
        pixelSpan (224 * d.y_center) (224 * d.height) := by
  have axis : ∀ {c s : ℚ}, Moderate c → Convertible s →
      let xs := pixelAxis (saturate c) (saturate s)
      (⟨(xs.1 : ℚ), (i32 (xs.1 + xs.2) : ℚ)⟩ : Span ℚ) = pixelSpan c s := by
    intro c s hc hs
    obtain ⟨ec, c0, -⟩ := hc.convertible.toInt_eq
    obtain ⟨es, s0, s1⟩ := hs.toInt_eq
    have b0 := clampPixel_mem (⌊c⌋ - (⌊s⌋ + 1) / 2)
    have b1 := clampPixel_mem (⌊c⌋ + (⌊s⌋ + 1) / 2)
    simp only [ec, es, pixelAxis_eq c0 hc.floor_le s0 s1, pixelSpan, Span.mk.injEq, true_and]
    rw [i32_eq_self (by simp only [INT_MIN]; omega) (by simp only [INT_MAX]; omega)]
    push_cast
    ring
  rw [model_detection_to_box_eq]
  exact ⟨axis xc w, axis yc h⟩

/-- Half of a size, rounded by the parity of its integral part. -/
theorem half_floor_bounds (size : ℚ) :
    size / 2 - 1 / 2 < ((⌊size⌋ + 1) / 2 : Int) ∧
      (((⌊size⌋ + 1) / 2 : Int) : ℚ) ≤ size / 2 + 1 / 2 := by
  have s0 := Int.floor_le size
  have s1 := Int.lt_floor_add_one size
  have m0 : (2 * ((⌊size⌋ + 1) / 2 : Int) : ℚ) ≤ ⌊size⌋ + 1 := by
    exact_mod_cast (by omega : 2 * ((⌊size⌋ + 1) / 2) ≤ ⌊size⌋ + 1)
  have m1 : (⌊size⌋ : ℚ) ≤ 2 * ((⌊size⌋ + 1) / 2 : Int) := by
    exact_mod_cast (by omega : ⌊size⌋ ≤ 2 * ((⌊size⌋ + 1) / 2))
  constructor <;> linarith

/-- Rounding to pixels moves the ends of a box inside the frame by less than two pixels. -/
theorem pixelSpan_bounds {centre size : ℚ} (large : 16 ≤ size) (lo : 0 ≤ centre - size / 2)
    (hi : centre + size / 2 ≤ 224) :
    let p := pixelSpan centre size
    centre - size / 2 - 3 / 2 < p.lo ∧ p.lo ≤ centre - size / 2 + 1 / 2 ∧
      centre + size / 2 - 1 / 2 < p.hi ∧ p.hi ≤ centre + size / 2 + 3 / 2 ∧
      size - 1 < p.length ∧ p.length ≤ size + 2 := by
  intro p
  have c0 := Int.floor_le centre
  have c1 := Int.lt_floor_add_one centre
  obtain ⟨m0, m1⟩ := half_floor_bounds size
  set C := ⌊centre⌋
  set M := (⌊size⌋ + 1) / 2
  have left : C - M ≤ 223 := by
    have : (C - M : ℚ) ≤ 223 := by linarith
    exact_mod_cast this
  have right : 0 ≤ C + M := by
    have : (0 : ℚ) ≤ C + M := by linarith
    exact_mod_cast this
  have first : p.lo = max 0 ((C : ℚ) - M) := by
    simp only [p, pixelSpan, clampPixel]
    rw [min_eq_right left]
    push_cast
    rfl
  have last : p.hi = min 223 ((C : ℚ) + M) + 1 := by
    simp only [p, pixelSpan, clampPixel]
    rw [max_eq_right (le_min (by norm_num) right)]
    push_cast
    rfl
  rw [Span.length, first, last]
  -- the frame cuts a box at either end or not at all
  rcases max_cases 0 ((C : ℚ) - M) with ⟨ml, hl⟩ | ⟨ml, hl⟩ <;>
    rcases min_cases 223 ((C : ℚ) + M) with ⟨mh, hh⟩ | ⟨mh, hh⟩ <;>
      rw [ml, mh] <;> refine ⟨?_, ?_, ?_, ?_, ?_, ?_⟩ <;> linarith

end PeopleDetection
