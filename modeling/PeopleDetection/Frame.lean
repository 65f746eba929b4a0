import Mathlib.Algebra.Order.Group.MinMax
import PeopleDetection.Overlap

/-!
# Boxes and the frame of the network

`model_detection_to_box` clamps after its integer arithmetic. The box it makes is inside the
frame as long as neither size saturates, and then each of its edges is within one and a half
pixels of the exact edge. A size that saturates is the largest `int`: adding one overflows,
and the two corners change places.

The conversion is proved for every rounding of the products, of which exact arithmetic is one
case. A product beyond the range of `float` is infinite in C and large here, and saturates in
both.
-/

namespace PeopleDetection

open Library

/-! ## Numbers with rounding -/

/-- A number of the arithmetic `ar`. -/
@[ext] structure Rounded (ar : FloatArith) where
  val : ℚ

namespace Rounded

variable {ar : FloatArith}

instance : Zero (Rounded ar) := ⟨⟨0⟩⟩

instance : CFloat (Rounded ar) where
  add a b := ⟨ar.round (a.val + b.val)⟩
  sub a b := ⟨ar.round (a.val - b.val)⟩
  neg a := ⟨-a.val⟩
  mul a b := ⟨ar.round (a.val * b.val)⟩
  div a b := ⟨ar.round (a.val / b.val)⟩
  le a b := a.val ≤ b.val
  lt a b := a.val < b.val
  decidableLE a b := inferInstanceAs (Decidable (a.val ≤ b.val))
  decidableLT a b := inferInstanceAs (Decidable (a.val < b.val))
  ofInt n := ⟨ar.round n⟩
  toInt a := saturate a.val

/-- A coordinate in pixels; both sides of the frame have 224. -/
theorem toInt_mul (a : Rounded ar) :
    CFloat.toInt (CFloat.ofInt 224 * a) = saturate (ar.round (224 * a.val)) := by
  have exact : ar.round ((224 : Int) : ℚ) = 224 := ar.exact_of_le 224 (by decide)
  change saturate (ar.round (ar.round ((224 : Int) : ℚ) * a.val)) = _
  rw [exact]

end Rounded

theorem FloatArith.round_nonneg (ar : FloatArith) {v : ℚ} (h : 0 ≤ v) : 0 ≤ ar.round v := by
  have zero := ar.exact_of_le 0 (by decide)
  rw [Nat.cast_zero] at zero
  exact zero ▸ ar.mono h

/-- A centre inside the picture is converted to a pixel of the frame or the one behind it. -/
theorem FloatArith.centre_mem (ar : FloatArith) {c : ℚ} (h : 0 ≤ c ∧ c ≤ 1) :
    0 ≤ saturate (ar.round (224 * c)) ∧ saturate (ar.round (224 * c)) ≤ 224 := by
  have lo : 0 ≤ ar.round (224 * c) := ar.round_nonneg (by linarith [h.1])
  have hi : ar.round (224 * c) ≤ 224 := by
    have le := ar.mono (show 224 * c ≤ ((224 : ℕ) : ℚ) by push_cast; linarith [h.2])
    rwa [ar.exact_of_le 224 (by decide)] at le
  have moderate : Moderate (ar.round (224 * c)) := ⟨lo, by linarith⟩
  obtain ⟨eq, nonneg, -⟩ := moderate.convertible.toInt_eq
  rw [eq]
  exact ⟨nonneg, Int.floor_le_iff.mpr (by push_cast; linarith)⟩

/-- Conversion saturates at the largest `int`. -/
theorem saturate_lt_iff {x : ℚ} (h : 0 ≤ x) :
    0 ≤ saturate x ∧ saturate x ≤ INT_MAX ∧ (saturate x < INT_MAX ↔ x < INT_MAX) := by
  have lo : 0 ≤ ⌊x⌋ := Int.floor_nonneg.mpr h
  rw [← Int.floor_lt, saturate, if_pos h]
  simp only [INT_MIN, INT_MAX]
  omega

/-! ## Overflow and the frame -/

/-- A value of type `int`. -/
def FitsInt (n : Int) : Prop := INT_MIN ≤ n ∧ n ≤ INT_MAX

instance (n : Int) : Decidable (FitsInt n) := inferInstanceAs (Decidable (_ ∧ _))

/-- The exact results of the `int` additions and subtractions of `model_detection_to_box`. -/
def additions {F : Type} [Zero F] [CFloat F] (d : OdPpOutBuffer F) : List Int :=
  let (xc, yc) := convert_point d.x_center d.y_center
  let (w, h) := convert_length d.width d.height
  let half_w := Int.tdiv (i32 (w + 1)) 2
  let half_h := Int.tdiv (i32 (h + 1)) 2
  let (x0, y0) := clamp_point (i32 (xc - half_w)) (i32 (yc - half_h))
  let (x1, y1) := clamp_point (i32 (xc + half_w)) (i32 (yc + half_h))
  [w + 1, h + 1, xc - half_w, yc - half_h, xc + half_w, yc + half_h,
    x1 - x0, i32 (x1 - x0) + 1, y1 - y0, i32 (y1 - y0) + 1]

/-- A non-empty box inside the picture. -/
structure DBox.InFrame (b : DBox) : Prop where
  x : 0 ≤ b.x
  y : 0 ≤ b.y
  w : 1 ≤ b.w
  h : 1 ≤ b.h
  right : b.x + b.w ≤ NN_WIDTH
  bottom : b.y + b.h ≤ NN_HEIGHT

/-- The additions on one axis. -/
def axisAdditions (c s : Int) : List Int :=
  let half := Int.tdiv (i32 (s + 1)) 2
  let x0 := clampPixel (i32 (c - half))
  let x1 := clampPixel (i32 (c + half))
  [s + 1, c - half, c + half, x1 - x0, i32 (x1 - x0) + 1]

/-- The additions fit and the side is inside the frame. -/
def AxisInFrame (c s : Int) : Prop :=
  (∀ n ∈ axisAdditions c s, FitsInt n) ∧ 0 ≤ (pixelAxis c s).1 ∧ 1 ≤ (pixelAxis c s).2 ∧
    (pixelAxis c s).1 + (pixelAxis c s).2 ≤ 224

/-- Whatever the size, only the largest `int` takes the box out of the frame. -/
theorem axisInFrame_iff {c s : Int} (c0 : 0 ≤ c) (c1 : c ≤ 224) (s0 : 0 ≤ s) :
    AxisInFrame c s ↔ s < INT_MAX := by
  constructor
  · rintro ⟨fits, -⟩
    have next := (fits (s + 1) List.mem_cons_self).2
    simp only [INT_MAX] at next ⊢
    omega
  · intro s1
    have b0 := clampPixel_mem (c - (s + 1) / 2)
    have b1 := clampPixel_mem (c + (s + 1) / 2)
    -- the clamp keeps the order of the corners
    have order : clampPixel (c - (s + 1) / 2) ≤ clampPixel (c + (s + 1) / 2) := by
      rw [clampPixel, clampPixel]
      omega
    rw [AxisInFrame, pixelAxis_eq c0 (by omega) s0 s1]
    refine ⟨?_, b0.1, by omega, by omega⟩
    intro n hn
    have fits : ∀ m : Int, -1100000000 ≤ m → m ≤ 1100000000 → i32 m = m := fun m lo hi =>
      i32_eq_self (by simp only [INT_MIN]; omega) (by simp only [INT_MAX]; omega)
    rw [axisAdditions, half_eq s0 s1] at hn
    simp only [INT_MAX] at s1
    rw [fits (c - (s + 1) / 2) (by omega) (by omega), fits (c + (s + 1) / 2) (by omega) (by omega),
      fits (_ - _) (by omega) (by omega)] at hn
    simp only [List.mem_cons, List.not_mem_nil, or_false] at hn
    simp only [FitsInt, INT_MIN, INT_MAX]
    omega

/-- A box is inside the frame when both of its sides are. -/
theorem inFrame_iff_axes {F : Type} [Zero F] [CFloat F] (d : OdPpOutBuffer F) :
    ((∀ n ∈ additions d, FitsInt n) ∧ (model_detection_to_box d).InFrame) ↔
      AxisInFrame (CFloat.toInt (CFloat.ofInt NN_WIDTH * d.x_center))
          (CFloat.toInt (CFloat.ofInt NN_WIDTH * d.width)) ∧
        AxisInFrame (CFloat.toInt (CFloat.ofInt NN_HEIGHT * d.y_center))
          (CFloat.toInt (CFloat.ofInt NN_HEIGHT * d.height)) := by
  have split : (∀ n ∈ additions d, FitsInt n) ↔
      (∀ n ∈ axisAdditions (CFloat.toInt (CFloat.ofInt NN_WIDTH * d.x_center))
          (CFloat.toInt (CFloat.ofInt NN_WIDTH * d.width)), FitsInt n) ∧
        ∀ n ∈ axisAdditions (CFloat.toInt (CFloat.ofInt NN_HEIGHT * d.y_center))
          (CFloat.toInt (CFloat.ofInt NN_HEIGHT * d.height)), FitsInt n := by
    simp only [additions, axisAdditions, convert_point, convert_length, clamp_point_eq,
      List.forall_mem_cons]
    tauto
  rw [split, model_detection_to_box_eq]
  constructor
  · rintro ⟨⟨fx, fy⟩, b⟩
    exact ⟨⟨fx, b.x, b.w, b.right⟩, ⟨fy, b.y, b.h, b.bottom⟩⟩
  · rintro ⟨⟨fx, x, w, right⟩, ⟨fy, y, h, bottom⟩⟩
    exact ⟨⟨fx, fy⟩, ⟨x, y, w, h, right, bottom⟩⟩

/-- Exactly the detections whose sizes do not saturate become a box inside the frame. -/
theorem detection_in_frame_iff {ar : FloatArith} {d : OdPpOutBuffer (Rounded ar)}
    (x_center : 0 ≤ d.x_center.val ∧ d.x_center.val ≤ 1)
    (y_center : 0 ≤ d.y_center.val ∧ d.y_center.val ≤ 1)
    (width : 0 ≤ d.width.val) (height : 0 ≤ d.height.val) :
    ((∀ n ∈ additions d, FitsInt n) ∧ (model_detection_to_box d).InFrame) ↔
      ar.round (224 * d.width.val) < INT_MAX ∧ ar.round (224 * d.height.val) < INT_MAX := by
  have axis : ∀ {c s : Rounded ar}, 0 ≤ c.val ∧ c.val ≤ 1 → 0 ≤ s.val →
      (AxisInFrame (CFloat.toInt (CFloat.ofInt 224 * c)) (CFloat.toInt (CFloat.ofInt 224 * s)) ↔
        ar.round (224 * s.val) < INT_MAX) := by
    intro c s hc hs
    obtain ⟨s0, -, s1⟩ := saturate_lt_iff (ar.round_nonneg (by linarith : 0 ≤ 224 * s.val))
    obtain ⟨c0, c1⟩ := ar.centre_mem hc
    rw [Rounded.toInt_mul, Rounded.toInt_mul, axisInFrame_iff c0 c1 s0, s1]
  rw [inFrame_iff_axes]
  exact and_congr (axis x_center width) (axis y_center height)

/-- A detection in the middle of the picture. -/
def middleDetection (width height : ℚ) : OdPpOutBuffer (Rounded .exact) :=
  ⟨⟨1 / 2⟩, ⟨1 / 2⟩, ⟨width⟩, ⟨height⟩, ⟨1⟩, 0⟩

theorem detection_in_frame_iff_sample :
    let d := middleDetection (1 / 4) (1 / 2)
    ((∀ n ∈ additions d, FitsInt n) ∧ (model_detection_to_box d).InFrame) ↔
      FloatArith.exact.round (224 * d.width.val) < INT_MAX ∧
        FloatArith.exact.round (224 * d.height.val) < INT_MAX :=
  detection_in_frame_iff (d := middleDetection (1 / 4) (1 / 2)) (by decide +kernel)
    (by decide +kernel) (by decide +kernel) (by decide +kernel)

/-- Ten million pictures wide: the conversion saturates, and the corners change places. -/
theorem detection_out_of_frame :
    let d := middleDetection 10000000 (1 / 2)
    2147483648 ∈ additions d ∧ ¬ FitsInt 2147483648 ∧
      model_detection_to_box d = ⟨223, 56, -222, 113⟩ ∧ ¬ (model_detection_to_box d).InFrame := by
  have box : model_detection_to_box (middleDetection 10000000 (1 / 2)) = ⟨223, 56, -222, 113⟩ := by
    decide +kernel
  refine ⟨by decide +kernel, by decide +kernel, box, fun inside => ?_⟩
  have positive := inside.w
  rw [box] at positive
  exact absurd positive (by decide)

/-! ## Rounding error -/

/-- An edge in pixels, clamped to the frame. -/
def clampEdge (v : ℚ) : ℚ := max 0 (min 224 v)

theorem abs_clampEdge_sub_le (u v : ℚ) : |clampEdge u - clampEdge v| ≤ |u - v| := by
  have outer := abs_max_sub_max_le_max 0 (min 224 u) 0 (min 224 v)
  have inner := abs_min_sub_min_le_max 224 u 224 v
  rw [sub_self, abs_zero, max_eq_right (abs_nonneg (min 224 u - min 224 v))] at outer
  rw [sub_self, abs_zero, max_eq_right (abs_nonneg (u - v))] at inner
  exact outer.trans inner

/-- Both edges on one axis are within one and a half pixels of the exact edges. -/
theorem pixelSpan_near {centre size : ℚ} (c0 : 0 ≤ centre) (c1 : centre ≤ 224) (s0 : 0 ≤ size) :
    |(pixelSpan centre size).lo - clampEdge (centre - size / 2)| ≤ 3 / 2 ∧
      |(pixelSpan centre size).hi - clampEdge (centre + size / 2)| ≤ 3 / 2 := by
  obtain ⟨m0, m1⟩ := half_floor_bounds size
  have f0 := Int.floor_le centre
  have f1 := Int.lt_floor_add_one centre
  have nonneg : 0 ≤ ⌊centre⌋ + (⌊size⌋ + 1) / 2 := by
    have := Int.floor_nonneg.mpr c0
    have := Int.floor_nonneg.mpr s0
    omega
  have positive : (0 : ℚ) ≤ ⌊centre⌋ + ((⌊size⌋ + 1) / 2 : Int) := by exact_mod_cast nonneg
  simp only [pixelSpan, clampPixel]
  push_cast
  generalize ((⌊centre⌋ : Int) : ℚ) = C at *
  generalize (((⌊size⌋ + 1) / 2 : Int) : ℚ) = M at *
  constructor
  · -- the lower edge stops at the last pixel, the exact edge behind it
    have same : max 0 (min 223 (C - M)) = clampEdge (min 223 (C - M)) := by
      rw [clampEdge, min_eq_right (a := 224) ((min_le_left _ _).trans (by norm_num))]
    rw [same]
    calc
      |clampEdge (min 223 (C - M)) - clampEdge (centre - size / 2)| ≤
          |min 223 (C - M) - (centre - size / 2)| := abs_clampEdge_sub_le _ _
      _ ≤ 3 / 2 := by
        rw [abs_le]
        rcases min_cases 223 (C - M) with ⟨e, h⟩ | ⟨e, h⟩ <;> constructor <;> linarith
  · -- the upper edge: one pixel further, both clamps are the same
    have same : max 0 (min 223 (C + M)) + 1 = clampEdge (C + M + 1) := by
      rw [clampEdge, max_eq_right (le_min (by norm_num) positive),
        max_eq_right (le_min (by norm_num) (by linarith)), ← min_add_add_right]
      norm_num
    rw [same]
    calc
      |clampEdge (C + M + 1) - clampEdge (centre + size / 2)| ≤
          |C + M + 1 - (centre + size / 2)| := abs_clampEdge_sub_le _ _
      _ ≤ 3 / 2 := by
        rw [abs_le]
        constructor <;> linarith

/-- The edges of a converted detection are close to the exact edges. -/
theorem edges_near_exact {d : OdPpOutBuffer ℚ} (x_center : 0 ≤ d.x_center ∧ d.x_center ≤ 1)
    (y_center : 0 ≤ d.y_center ∧ d.y_center ≤ 1) (width : 0 ≤ d.width ∧ d.width ≤ 1000000)
    (height : 0 ≤ d.height ∧ d.height ≤ 1000000) :
    let b : BoxXyxy ℚ := dbox_to_xyxy (model_detection_to_box d)
    |b.x0 - clampEdge (224 * (d.x_center - d.width / 2))| ≤ 3 / 2 ∧
      |b.y0 - clampEdge (224 * (d.y_center - d.height / 2))| ≤ 3 / 2 ∧
      |b.x1 - clampEdge (224 * (d.x_center + d.width / 2))| ≤ 3 / 2 ∧
      |b.y1 - clampEdge (224 * (d.y_center + d.height / 2))| ≤ 3 / 2 := by
  intro b
  have moderate : ∀ {c : ℚ}, 0 ≤ c ∧ c ≤ 1 → Moderate (224 * c) := fun h =>
    ⟨by linarith [h.1], by linarith [h.2]⟩
  have convertible : ∀ {s : ℚ}, 0 ≤ s ∧ s ≤ 1000000 → Convertible (224 * s) := fun h =>
    ⟨by linarith [h.1], by
      simp only [INT_MAX]
      push_cast
      linarith [h.2]⟩
  have scale : ∀ c s : ℚ, 224 * (c - s / 2) = 224 * c - 224 * s / 2 ∧
      224 * (c + s / 2) = 224 * c + 224 * s / 2 := fun c s => by constructor <;> ring
  obtain ⟨sx, sy⟩ := spans_model_detection_to_box (moderate x_center) (moderate y_center)
    (convertible width) (convertible height)
  have near : ∀ {c s : ℚ}, 0 ≤ c ∧ c ≤ 1 → 0 ≤ s ∧ s ≤ 1000000 →
      |(pixelSpan (224 * c) (224 * s)).lo - clampEdge (224 * (c - s / 2))| ≤ 3 / 2 ∧
        |(pixelSpan (224 * c) (224 * s)).hi - clampEdge (224 * (c + s / 2))| ≤ 3 / 2 := by
    intro c s hc hs
    rw [(scale c s).1, (scale c s).2]
    exact pixelSpan_near (by linarith [hc.1]) (by linarith [hc.2]) (by linarith [hs.1])
  obtain ⟨x0, x1⟩ := near x_center width
  obtain ⟨y0, y1⟩ := near y_center height
  rw [← sx] at x0 x1
  rw [← sy] at y0 y1
  exact ⟨x0, y0, x1, y1⟩

/-- A detection that covers a little more than the left half of the picture. -/
theorem edges_near_exact_sample :
    let d : OdPpOutBuffer ℚ := ⟨1 / 4, 1 / 2, 3 / 5, 1, 1, 0⟩
    let b : BoxXyxy ℚ := dbox_to_xyxy (model_detection_to_box d)
    |b.x0 - clampEdge (224 * (d.x_center - d.width / 2))| ≤ 3 / 2 ∧
      |b.y0 - clampEdge (224 * (d.y_center - d.height / 2))| ≤ 3 / 2 ∧
      |b.x1 - clampEdge (224 * (d.x_center + d.width / 2))| ≤ 3 / 2 ∧
      |b.y1 - clampEdge (224 * (d.y_center + d.height / 2))| ≤ 3 / 2 :=
  edges_near_exact (d := ⟨1 / 4, 1 / 2, 3 / 5, 1, 1, 0⟩) (by norm_num) (by norm_num)
    (by norm_num) (by norm_num)

end PeopleDetection
