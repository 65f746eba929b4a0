import Mathlib.Algebra.Order.Group.MinMax
import PeopleDetection.Dataset.Annotations
import PeopleDetection.Library.Spans

/-!
# Clipping to the frame

What is left of a scaled box inside the frame is its intersection with the frame. The
exporter clamps the corner and then the size. It keeps the intersection of a box that starts
inside the frame, at least a pixel before the far border, and of a box that covers the frame
from border to border. It moves any other corner into the frame without shrinking the box: a
box over the near border keeps its size, and a box behind the far border becomes one pixel.
-/

namespace PeopleDetection

open Library

/-- The frame on one axis. -/
def frameSpan : Span ℚ := ⟨0, SIZE⟩

/-- The sides of the scaled box. -/
def BBox.scaledX (b : BBox) (im : CocoImage) : Span ℚ :=
  ⟨b.x * SIZE / im.width, (b.x + b.w) * SIZE / im.width⟩

def BBox.scaledY (b : BBox) (im : CocoImage) : Span ℚ :=
  ⟨b.y * SIZE / im.height, (b.y + b.h) * SIZE / im.height⟩

/-- The intersection of the scaled box with the frame, if it is a pixel wide and high. -/
def clip (im : CocoImage) (b : BBox) : Option BBox :=
  let x := (b.scaledX im).meet frameSpan
  let y := (b.scaledY im).meet frameSpan
  if 1 ≤ x.length ∧ 1 ≤ y.length then some ⟨x.lo, y.lo, x.length, y.length⟩ else none

/-- The side starts inside the frame, a pixel before the far border, or covers the frame. -/
def StartsInside (s : Span ℚ) : Prop := (0 ≤ s.lo ∧ s.lo ≤ SIZE - 1) ∨ (s.lo < 0 ∧ SIZE ≤ s.hi)

/-! ## One axis -/

/-- The clamps on one axis. -/
def clampSpan (s : Span ℚ) : ℚ × ℚ :=
  let x := clamp s.lo 0 (SIZE - 1)
  (x, clamp s.length 0 (SIZE - x))

section Axis

variable {s : Span ℚ}

theorem clamp_eq {v lo hi : ℚ} (h : lo ≤ hi) : clamp v lo hi = max lo (min hi v) := by
  rw [clamp]
  split_ifs with below above
  · rw [min_eq_right (below.le.trans h), max_eq_left below.le]
  · rw [min_eq_left (le_of_lt above), max_eq_right h]
  · rw [min_eq_right (not_lt.mp above), max_eq_right (not_lt.mp below)]

theorem clampSpan_eq (nonneg : 0 ≤ s.length) :
    let x := max 0 (min (SIZE - 1) s.lo)
    clampSpan s = (x, min (SIZE - x) s.length) := by
  have inside : max 0 (min (SIZE - 1) s.lo) ≤ SIZE :=
    max_le (by norm_num) ((min_le_left _ _).trans (by norm_num))
  rw [clampSpan, clamp_eq (by norm_num : (0 : ℚ) ≤ SIZE - 1), clamp_eq (sub_nonneg.mpr inside),
    max_eq_right (le_min (sub_nonneg.mpr inside) nonneg)]

/-- The clamps drop exactly the sides that are shorter than a pixel. -/
theorem clampSpan_lt_one_iff (nonneg : 0 ≤ s.length) :
    (clampSpan s).2 < 1 ↔ s.length < 1 := by
  have border : max 0 (min (SIZE - 1) s.lo) ≤ SIZE - 1 := max_le (by norm_num) (min_le_left _ _)
  rw [clampSpan_eq nonneg, min_lt_iff]
  constructor
  · rintro (h | h)
    · linarith
    · exact h
  · exact Or.inr

theorem length_meet_lt_one (h : s.length < 1) : (s.meet frameSpan).length < 1 :=
  (Span.overlap_le_left s frameSpan).trans_lt h

/-- When the clamps leave the intersection of a side with the frame. -/
theorem clampSpan_eq_meet_iff (large : 1 ≤ s.length) :
    (1 ≤ (s.meet frameSpan).length ∧
        clampSpan s = ((s.meet frameSpan).lo, (s.meet frameSpan).length)) ↔
      StartsInside s := by
  rw [clampSpan_eq (zero_le_one.trans large), StartsInside, Prod.mk.injEq]
  simp only [Span.meet, Span.length, frameSpan, SIZE] at large ⊢
  rcases lt_or_ge s.lo 0 with before | start
  · rw [max_eq_left ((min_le_right _ _).trans before.le), max_eq_right before.le, sub_zero,
      sub_zero, le_min_iff]
    constructor
    · rintro ⟨⟨h, -⟩, -, same⟩
      refine Or.inr ⟨before, ?_⟩
      -- the box keeps its size, so nothing of it may be cut off
      rcases min_cases s.hi 256 with ⟨e, h'⟩ | ⟨e, h'⟩
      · rcases min_cases 256 (s.hi - s.lo) with ⟨e', h''⟩ | ⟨e', h''⟩ <;> linarith
      · exact h'.le
    · rintro (⟨h, -⟩ | ⟨-, h⟩)
      · exact absurd before (not_lt.mpr h)
      · rw [min_eq_left (by linarith : (256 : ℚ) ≤ s.hi - s.lo), min_eq_right h]
        exact ⟨⟨by linarith, by norm_num⟩, rfl, rfl⟩
  · rw [max_eq_left start]
    constructor
    · rintro ⟨h, -, -⟩
      exact Or.inl ⟨start, by linarith [min_le_right s.hi 256]⟩
    · rintro (⟨-, border⟩ | ⟨h, -⟩)
      · rw [min_eq_right border, max_eq_right start, min_comm, ← min_sub_sub_right]
        exact ⟨le_min (by linarith) large, rfl, rfl⟩
      · exact absurd h (not_lt.mpr start)

end Axis

/-! ## Boxes -/

/-- The exporter treats each axis alike. -/
theorem keptOf_singleton (im : CocoImage) (b : BBox) :
    let x := clampSpan (b.scaledX im)
    let y := clampSpan (b.scaledY im)
    keptOf .exact im [b] = if x.2 < 1 ∨ y.2 < 1 then [] else [⟨x.1, y.1, x.2, y.2⟩] := by
  have corner : ∀ v size : ℚ, v * (SIZE / size) = v * SIZE / size := fun v size =>
    (mul_div_assoc v SIZE size).symm
  have extent : ∀ lo v size : ℚ, v * (SIZE / size) =
      (lo + v) * SIZE / size - lo * SIZE / size := fun lo v size => by ring
  have box : clampBox .exact (SIZE / im.width) (SIZE / im.height) b =
      ⟨(clampSpan (b.scaledX im)).1, (clampSpan (b.scaledY im)).1, (clampSpan (b.scaledX im)).2,
        (clampSpan (b.scaledY im)).2⟩ := by
    simp only [clampBox, FloatArith.exact, id, clampSpan, BBox.scaledX, BBox.scaledY, Span.length]
    rw [corner b.x, corner b.y, extent b.x b.w, extent b.y b.h]
  change [b].filterMap (keepBox .exact (SIZE / im.width) (SIZE / im.height)) = _
  rw [List.filterMap_cons, List.filterMap_nil, keepBox, box]
  split_ifs <;> rfl

/-- Exactly where the exporter clips a box: the scaled box is less than a pixel wide or high,
or it starts inside the frame on both axes. -/
theorem clipped_iff {im : CocoImage} {b : BBox} (width : 0 < im.width) (height : 0 < im.height)
    (w : 0 ≤ b.w) (h : 0 ≤ b.h) :
    keptOf .exact im [b] = (clip im b).toList ↔
      (b.scaledX im).length < 1 ∨ (b.scaledY im).length < 1 ∨
        (StartsInside (b.scaledX im) ∧ StartsInside (b.scaledY im)) := by
  have extent : ∀ {lo v size : ℚ}, 0 < size → 0 ≤ v →
      0 ≤ (⟨lo * SIZE / size, (lo + v) * SIZE / size⟩ : Span ℚ).length := by
    intro lo v size hs hv
    have eq : (lo + v) * SIZE / size - lo * SIZE / size = v * (SIZE / size) := by ring
    rw [Span.length, eq]
    positivity
  have wide : 0 ≤ (b.scaledX im).length := extent width w
  have tall : 0 ≤ (b.scaledY im).length := extent height h
  rw [keptOf_singleton, clip]
  simp only [clampSpan_lt_one_iff wide, clampSpan_lt_one_iff tall]
  by_cases small : (b.scaledX im).length < 1 ∨ (b.scaledY im).length < 1
  · -- a box below a pixel is dropped, and so is its intersection
    have dropped : ¬ (1 ≤ ((b.scaledX im).meet frameSpan).length ∧
        1 ≤ ((b.scaledY im).meet frameSpan).length) := by
      rintro ⟨hx, hy⟩
      cases small with
      | inl h => exact absurd (length_meet_lt_one h) (not_lt.mpr hx)
      | inr h => exact absurd (length_meet_lt_one h) (not_lt.mpr hy)
    rw [if_pos small, if_neg dropped]
    exact iff_of_true rfl (small.imp_right Or.inl)
  · obtain ⟨hx, hy⟩ := not_or.mp small
    have onX := clampSpan_eq_meet_iff (not_lt.mp hx)
    have onY := clampSpan_eq_meet_iff (not_lt.mp hy)
    rw [if_neg small, or_iff_right hx, or_iff_right hy, ← onX, ← onY, Prod.ext_iff, Prod.ext_iff]
    split_ifs with kept
    · simp only [Option.toList_some, List.cons.injEq, and_true, BBox.mk.injEq]
      constructor
      · rintro ⟨x, y, w, h⟩
        exact ⟨⟨kept.1, x, w⟩, ⟨kept.2, y, h⟩⟩
      · rintro ⟨⟨-, x, w⟩, ⟨-, y, h⟩⟩
        exact ⟨x, y, w, h⟩
    · refine iff_of_false (by simp) ?_
      rintro ⟨⟨hx, -⟩, ⟨hy, -⟩⟩
      exact kept ⟨hx, hy⟩

/-- An image that needs no scaling. -/
def frameImage : CocoImage := ⟨1, [97, DOT, 106, 112, 103], 256, 256⟩

/-- A box over the far borders, which is clipped. -/
theorem clipped_iff_sample :
    keptOf .exact frameImage [⟨192, 192, 128, 128⟩] =
        (clip frameImage ⟨192, 192, 128, 128⟩).toList ↔
      ((⟨192, 192, 128, 128⟩ : BBox).scaledX frameImage).length < 1 ∨
        ((⟨192, 192, 128, 128⟩ : BBox).scaledY frameImage).length < 1 ∨
        (StartsInside ((⟨192, 192, 128, 128⟩ : BBox).scaledX frameImage) ∧
          StartsInside ((⟨192, 192, 128, 128⟩ : BBox).scaledY frameImage)) :=
  clipped_iff (by decide +kernel) (by decide +kernel) (by decide +kernel) (by decide +kernel)

/-- A box over the left border keeps its width of 128 pixels, of which 64 are in the frame. -/
def leftBox : BBox := ⟨-64, 0, 128, 128⟩

/-- A box in the last half pixel becomes a record, although its intersection is too narrow. -/
def rightBox : BBox := ⟨511 / 2, 0, 128, 128⟩

theorem not_clipped :
    (keptOf .exact frameImage [leftBox] = [⟨0, 0, 128, 128⟩] ∧
        clip frameImage leftBox = some ⟨0, 0, 64, 128⟩ ∧
        keptOf .exact frameImage [leftBox] ≠ (clip frameImage leftBox).toList) ∧
      keptOf .exact frameImage [rightBox] = [⟨255, 0, 1, 128⟩] ∧
        clip frameImage rightBox = none ∧
        keptOf .exact frameImage [rightBox] ≠ (clip frameImage rightBox).toList := by
  refine ⟨⟨?_, ?_, ?_⟩, ?_, ?_, ?_⟩ <;> decide +kernel

end PeopleDetection
