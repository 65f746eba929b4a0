import PeopleDetection.Benchmark.Run
import PeopleDetection.GroundTruth.Exported
import PeopleDetection.Overlap

/-!
# Scoring a perfect detector

The exporter scales the ground truth to a frame of 256 pixels, and the firmware scales a
detection to the 224 pixels of the network. Nothing brings the two together, so that even
a detector that reports each bounding box exactly is scored as wrong unless the box is
large and close to the upper left corner.

A span is what a box covers on one axis, in the frame of the network. The ground truth of
a span is `recordSpan`, its detection `detectedSpan`.
-/

namespace PeopleDetection

open Library

/-! ## One axis -/

/-- What the firmware reads back for a box over a span. -/
def recordSpan (s : Span ℚ) : Span ℚ :=
  ⟨round3 (8 / 7 * s.lo), round3 (8 / 7 * s.lo) + round3 (8 / 7 * s.length)⟩

/-- The pixels of a detection that reports a span exactly. -/
def detectedSpan (s : Span ℚ) : Span ℚ := pixelSpan ((s.lo + s.hi) / 2) s.length

/-- The overlap of the two. The record ends behind the detection. -/
def reach (s : Span ℚ) : ℚ := (detectedSpan s).hi - max (recordSpan s).lo (detectedSpan s).lo

/-- A span of at least 16 pixels in the frame. -/
structure Visible (s : Span ℚ) : Prop where
  lo : 0 ≤ s.lo
  hi : s.hi ≤ 224
  large : 16 ≤ s.length

theorem length_recordSpan (s : Span ℚ) :
    8 * s.length - 1 ≤ 7 * (recordSpan s).length ∧
      7 * (recordSpan s).length ≤ 8 * s.length + 1 := by
  have near := abs_le.mp (abs_round3_sub_le (8 / 7 * s.length))
  have length : (recordSpan s).length = round3 (8 / 7 * s.length) := by
    rw [Span.length, recordSpan]
    ring
  rw [length]
  constructor <;> linarith [near.1, near.2]

namespace Visible

variable {s : Span ℚ} (h : Visible s)

include h

theorem detectedSpan_bounds :
    s.lo - 3 / 2 < (detectedSpan s).lo ∧ (detectedSpan s).lo ≤ s.lo + 1 / 2 ∧
      s.hi - 1 / 2 < (detectedSpan s).hi ∧ (detectedSpan s).hi ≤ s.hi + 3 / 2 ∧
      s.length - 1 < (detectedSpan s).length ∧ (detectedSpan s).length ≤ s.length + 2 := by
  have lo : (s.lo + s.hi) / 2 - s.length / 2 = s.lo := by
    rw [Span.length]
    ring
  have hi : (s.lo + s.hi) / 2 + s.length / 2 = s.hi := by
    rw [Span.length]
    ring
  have bounds := pixelSpan_bounds h.large (lo.symm ▸ h.lo : 0 ≤ (s.lo + s.hi) / 2 - s.length / 2)
    (hi.symm ▸ h.hi)
  rwa [lo, hi] at bounds

theorem overlap_eq_reach : (recordSpan s).overlap (detectedSpan s) = reach s := by
  have start := abs_le.mp (abs_round3_sub_le (8 / 7 * s.lo))
  have extent := abs_le.mp (abs_round3_sub_le (8 / 7 * s.length))
  have behind : (detectedSpan s).hi ≤ (recordSpan s).hi := by
    have hi := h.detectedSpan_bounds.2.2.2.1
    have large := h.large
    have lo := h.lo
    simp only [Span.length] at extent large
    simp only [recordSpan, Span.length]
    linarith [start.1, extent.1]
  rw [Span.overlap, min_eq_right behind, reach]

theorem reach_bounds :
    7 * s.length - s.lo - 7 ≤ 7 * reach s ∧ 7 * reach s ≤ 7 * s.length - s.lo + 14 := by
  have start := abs_le.mp (abs_round3_sub_le (8 / 7 * s.lo))
  obtain ⟨-, lo, hi, hi', length, -⟩ := h.detectedSpan_bounds
  have first : (recordSpan s).lo = round3 (8 / 7 * s.lo) := rfl
  have nonneg := h.lo
  simp only [Span.length] at length ⊢
  rw [reach, first]
  rcases max_cases (round3 (8 / 7 * s.lo)) (detectedSpan s).lo with ⟨m, hm⟩ | ⟨m, hm⟩ <;> rw [m]
  · constructor <;> linarith [start.1, start.2]
  · constructor <;> linarith [start.1, start.2]

end Visible

/-! ## Both axes -/

/-- The box over two spans is large against its distance from the upper left corner. This is
enough for the record to cover half of what it and the detection cover, however both are
rounded. -/
structure Large (s t : Span ℚ) : Prop where
  x : 0 < 7 * s.length - s.lo - 7
  y : 0 < 7 * t.length - t.lo - 7
  area : (8 * s.length + 1) * (8 * t.length + 1) + (7 * s.length + 14) * (7 * t.length + 14) + 1 ≤
    3 * ((7 * s.length - s.lo - 7) * (7 * t.length - t.lo - 7))

/-- The same up to rounding: what a record needs to cover half. -/
def NearlyLarge (s t : Span ℚ) : Prop :=
  (8 * s.length - 1) * (8 * t.length - 1) + (7 * s.length - 7) * (7 * t.length - 7) ≤
    3 * ((7 * s.length - s.lo + 14) * (7 * t.length - t.lo + 14))

/-- The two rectangles overlap by one half. -/
def HalfOverlap (s t : Span ℚ) : Prop :=
  0 < reach s ∧ 0 < reach t ∧
    (recordSpan s).length * (recordSpan t).length +
      (detectedSpan s).length * (detectedSpan t).length + 1 / 1000000 ≤ 3 * (reach s * reach t)

section Rectangle

variable {s t : Span ℚ} (hs : Visible s) (ht : Visible t)

include hs ht

/-- A box that is large against its distance from the corner overlaps by one half. -/
theorem Large.halfOverlap (large : Large s t) : HalfOverlap s t := by
  obtain ⟨ps, pt, area⟩ := large
  have rs := hs.reach_bounds.1
  have rt := ht.reach_bounds.1
  have record : (7 * (recordSpan s).length) * (7 * (recordSpan t).length) ≤
      (8 * s.length + 1) * (8 * t.length + 1) :=
    mul_le_mul (length_recordSpan s).2 (length_recordSpan t).2
      (by linarith [(length_recordSpan t).1, ht.large]) (by linarith [hs.large])
  have detected : (7 * (detectedSpan s).length) * (7 * (detectedSpan t).length) ≤
      (7 * s.length + 14) * (7 * t.length + 14) :=
    mul_le_mul (by linarith [hs.detectedSpan_bounds.2.2.2.2.2])
      (by linarith [ht.detectedSpan_bounds.2.2.2.2.2])
      (by linarith [ht.detectedSpan_bounds.2.2.2.2.1, ht.large]) (by linarith [hs.large])
  have common : (7 * s.length - s.lo - 7) * (7 * t.length - t.lo - 7) ≤
      (7 * reach s) * (7 * reach t) :=
    mul_le_mul rs rt pt.le (by linarith)
  exact ⟨by linarith, by linarith, by linarith⟩

/-- A box that overlaps by one half is nearly as large as that. -/
theorem HalfOverlap.nearlyLarge (half : HalfOverlap s t) : NearlyLarge s t := by
  obtain ⟨ps, pt, half⟩ := half
  have rs := hs.reach_bounds.2
  have rt := ht.reach_bounds.2
  have record : (8 * s.length - 1) * (8 * t.length - 1) ≤
      (7 * (recordSpan s).length) * (7 * (recordSpan t).length) :=
    mul_le_mul (length_recordSpan s).1 (length_recordSpan t).1 (by linarith [ht.large])
      (by linarith [(length_recordSpan s).1, hs.large])
  have detected : (7 * s.length - 7) * (7 * t.length - 7) ≤
      (7 * (detectedSpan s).length) * (7 * (detectedSpan t).length) :=
    mul_le_mul (by linarith [hs.detectedSpan_bounds.2.2.2.2.1])
      (by linarith [ht.detectedSpan_bounds.2.2.2.2.1]) (by linarith [ht.large])
      (by linarith [hs.detectedSpan_bounds.2.2.2.2.1, hs.large])
  have common : (7 * reach s) * (7 * reach t) ≤
      (7 * s.length - s.lo + 14) * (7 * t.length - t.lo + 14) :=
    mul_le_mul rs rt (by linarith) (by linarith)
  rw [NearlyLarge]
  linarith

end Rectangle

/-! ## Bounding boxes -/

/-- What a bounding box covers on the two axes, in the frame of the network. -/
def BBox.onX (im : CocoImage) (b : BBox) : Span ℚ :=
  ⟨224 * b.x / im.width, 224 * (b.x + b.w) / im.width⟩

def BBox.onY (im : CocoImage) (b : BBox) : Span ℚ :=
  ⟨224 * b.y / im.height, 224 * (b.y + b.h) / im.height⟩

/-- The detection that reports a bounding box exactly. -/
def BBox.detection (im : CocoImage) (b : BBox) (conf : ℚ) : OdPpOutBuffer ℚ where
  x_center := (b.x + b.w / 2) / im.width
  y_center := (b.y + b.h / 2) / im.height
  width := b.w / im.width
  height := b.h / im.height
  conf := conf
  class_index := 0

/-- A bounding box inside its image, of at least 16 by 16 pixels of the network. -/
structure BBox.VisibleIn (im : CocoImage) (b : BBox) : Prop where
  width : 0 < im.width
  height : 0 < im.height
  left : 0 ≤ b.x
  top : 0 ≤ b.y
  right : b.x + b.w ≤ im.width
  bottom : b.y + b.h ≤ im.height
  wide : 16 ≤ 224 * (b.w / im.width)
  tall : 16 ≤ 224 * (b.h / im.height)

namespace BBox.VisibleIn

variable {im : CocoImage} {b : BBox}

theorem axis {size lo extent : ℚ} (pos : 0 < size) (nonneg : 0 ≤ lo) (inside : lo + extent ≤ size)
    (large : 16 ≤ 224 * (extent / size)) :
    Visible ⟨224 * lo / size, 224 * (lo + extent) / size⟩ where
  lo := by positivity
  hi := by
    rw [div_le_iff₀ pos]
    linarith
  large := by
    rw [Span.length, ← sub_div, ← mul_sub, add_sub_cancel_left, mul_div_assoc]
    exact large

theorem onX (h : b.VisibleIn im) : Visible (b.onX im) := axis h.width h.left h.right h.wide

theorem onY (h : b.VisibleIn im) : Visible (b.onY im) := axis h.height h.top h.bottom h.tall

/-- The exporter keeps the box, and the clamps leave it alone. -/
theorem keepBox_eq (h : b.VisibleIn im) :
    keepBox .exact (FloatArith.exact.round (SIZE / im.width))
        (FloatArith.exact.round (SIZE / im.height)) b =
      some ⟨8 / 7 * (b.onX im).lo, 8 / 7 * (b.onY im).lo, 8 / 7 * (b.onX im).length,
        8 / 7 * (b.onY im).length⟩ := by
  have scale : ∀ v size : ℚ, v * (256 / size) = 8 / 7 * (224 * v / size) := fun v size => by ring
  have length : ∀ lo extent size : ℚ,
      224 * (lo + extent) / size - 224 * lo / size = 224 * extent / size :=
    fun lo extent size => by ring
  -- each axis stays inside the frame of the exporter
  have inside : ∀ {s : Span ℚ}, Visible s → clamp (8 / 7 * s.lo) 0 (256 - 1) = 8 / 7 * s.lo ∧
      clamp (8 / 7 * s.length) 0 (256 - 8 / 7 * s.lo) = 8 / 7 * s.length ∧
        ¬ 8 / 7 * s.length < 1 := by
    intro s hv
    have lo := hv.lo
    have hi := hv.hi
    have large := hv.large
    simp only [Span.length] at large ⊢
    refine ⟨?_, ?_, by linarith⟩
    · rw [clamp, if_neg (by linarith), if_neg (by linarith)]
    · rw [clamp, if_neg (by linarith), if_neg (by linarith)]
  obtain ⟨x, w, wide⟩ := inside h.onX
  obtain ⟨y, l, tall⟩ := inside h.onY
  simp only [Span.length, BBox.onX, BBox.onY, length] at x y w l wide tall ⊢
  simp only [keepBox, clampBox, FloatArith.exact, id, SIZE, scale, x, y, w, l]
  rw [if_neg (not_or.mpr ⟨wide, tall⟩)]

/-- The conversion of the exact detection, on both axes. -/
theorem spans_detection (h : b.VisibleIn im) (conf : ℚ) :
    (dbox_to_xyxy (model_detection_to_box (b.detection im conf)) : BoxXyxy ℚ).spanX =
        detectedSpan (b.onX im) ∧
      (dbox_to_xyxy (model_detection_to_box (b.detection im conf)) : BoxXyxy ℚ).spanY =
        detectedSpan (b.onY im) := by
  have centre : ∀ lo extent size : ℚ, 224 * ((lo + extent / 2) / size) =
      (224 * lo / size + 224 * (lo + extent) / size) / 2 := fun lo extent size => by ring
  have extent : ∀ lo extent size : ℚ, 224 * (extent / size) =
      224 * (lo + extent) / size - 224 * lo / size := fun lo extent size => by ring
  have moderate : ∀ {s : Span ℚ}, Visible s →
      Moderate ((s.lo + s.hi) / 2) ∧ Convertible s.length := by
    intro s hv
    have lo := hv.lo
    have hi := hv.hi
    have large := hv.large
    simp only [Span.length] at large ⊢
    exact ⟨⟨by linarith, by linarith⟩,
      Moderate.convertible ⟨by linarith, by linarith⟩⟩
  obtain ⟨xc, w⟩ := moderate h.onX
  obtain ⟨yc, l⟩ := moderate h.onY
  have ex : 224 * (b.detection im conf).x_center = ((b.onX im).lo + (b.onX im).hi) / 2 :=
    centre _ _ _
  have ey : 224 * (b.detection im conf).y_center = ((b.onY im).lo + (b.onY im).hi) / 2 :=
    centre _ _ _
  have ew : 224 * (b.detection im conf).width = (b.onX im).length := extent _ _ _
  have eh : 224 * (b.detection im conf).height = (b.onY im).length := extent _ _ _
  have spans := spans_model_detection_to_box (d := b.detection im conf) (ex ▸ xc) (ey ▸ yc)
    (ew ▸ w) (eh ▸ l)
  rwa [ex, ey, ew, eh] at spans

/-- The exact detection of a box passes the overlap test with the record of the box exactly
when the two overlap by one half. -/
theorem overlaps_detection_iff (h : b.VisibleIn im) {r : BBox}
    (kept : keepBox .exact (FloatArith.exact.round (SIZE / im.width))
      (FloatArith.exact.round (SIZE / im.height)) b = some r) (conf : ℚ) :
    overlaps (xywh_to_xyxy (round3 r.x) (round3 r.y) (round3 r.w) (round3 r.h))
        (dbox_to_xyxy (model_detection_to_box (b.detection im conf))) ↔
      HalfOverlap (b.onX im) (b.onY im) := by
  rw [h.keepBox_eq, Option.some.injEq] at kept
  subst kept
  obtain ⟨px, py⟩ := h.spans_detection conf
  rw [overlaps_iff, px, py]
  have gx : ∀ x y w h : ℚ, (xywh_to_xyxy x y w h).spanX = ⟨x, x + w⟩ := fun _ _ _ _ => rfl
  have gy : ∀ x y w h : ℚ, (xywh_to_xyxy x y w h).spanY = ⟨y, y + h⟩ := fun _ _ _ _ => rfl
  rw [gx, gy, HalfOverlap, ← h.onX.overlap_eq_reach, ← h.onY.overlap_eq_reach]
  rfl

end BBox.VisibleIn

/-! ## The firmware's test -/

/-- A perfect detector is scored as correct at a box that is large against its distance from
the upper left corner, and only at boxes that nearly are. -/
theorem perfect_detection_scored_of_large {lc : Libc ℚ} (reads : lc.ReadsDecimals)
    {doc : CocoDocument} (plain : doc.Plain) {csv : OpenResult} (opened : ¬ csv.ret < 0)
    (exported : transform_annotations .exact doc = some csv.data)
    {im : CocoImage} {b r : BBox} (visible : b.VisibleIn im)
    (kept : keepBox .exact (FloatArith.exact.round (SIZE / im.width))
      (FloatArith.exact.round (SIZE / im.height)) b = some r)
    {i : ℕ} (row : ((doc.keptBoxes .exact im).take 64)[i]? = some r) (conf : ℚ) :
    let gt := (gt_find_person_boxes_csv lc csv (bin_name im.file_name)).out
    let scored := overlaps (gt.corners i)
      (dbox_to_xyxy (model_detection_to_box (b.detection im conf)))
    (Large (b.onX im) (b.onY im) → scored) ∧
      (scored → NearlyLarge (b.onX im) (b.onY im)) := by
  intro gt scored
  have nonempty : doc.keptBoxes .exact im ≠ [] := by
    intro empty
    rw [empty] at row
    simp at row
  have agrees := plain.lookup_of_kept exported reads opened rfl nonempty
  have rows : gt = roundedRows ((doc.keptBoxes .exact im).take 64) := agrees.out agrees.ret
  have corners : gt.corners i =
      xywh_to_xyxy (round3 r.x) (round3 r.y) (round3 r.w) (round3 r.h) := by
    rw [GtBoxes.corners, rows]
    simp [roundedRows, row]
  have exact : scored ↔ HalfOverlap (b.onX im) (b.onY im) := by
    simp only [scored]
    rw [corners]
    exact visible.overlaps_detection_iff kept conf
  constructor
  · exact fun large => exact.mpr (large.halfOverlap visible.onX visible.onY)
  · exact fun h => (exact.mp h).nearlyLarge visible.onX visible.onY

/-! ## A large and a small person -/

/-- An image of 640 by 640 pixels. -/
def offsetImage : CocoImage := ⟨1, [97, DOT, 106, 112, 103], 640, 640⟩

def largePerson : BBox := ⟨0, 0, 400, 400⟩

def smallPerson : BBox := ⟨320, 320, 64, 64⟩

def offsetDocument : CocoDocument where
  images := [offsetImage]
  annotations := [⟨1, 1, largePerson⟩, ⟨1, 1, smallPerson⟩]
  annotations_length := by decide

/-- The annotation file:
`a.bin,2,0.000,0.000,160.000,160.000,128.000,128.000,25.600,25.600`. -/
def offsetExport : Bytes :=
  [97, DOT, 98, 105, 110, COMMA, 50, COMMA, 48, DOT, 48, 48, 48, COMMA, 48, DOT, 48, 48, 48, COMMA,
    49, 54, 48, DOT, 48, 48, 48, COMMA, 49, 54, 48, DOT, 48, 48, 48, COMMA, 49, 50, 56, DOT, 48,
    48, 48, COMMA, 49, 50, 56, DOT, 48, 48, 48, COMMA, 50, 53, DOT, 54, 48, 48, COMMA, 50, 53, DOT,
    54, 48, 48, LF]

theorem transform_annotations_offset :
    transform_annotations .exact offsetDocument = some offsetExport := by
  decide +kernel

theorem offsetDocument_plain : offsetDocument.Plain where
  name := by
    intro im h
    simp only [offsetDocument, List.mem_cons, List.not_mem_nil, or_false] at h
    subst h
    exact ⟨by decide, by decide, by decide, by decide, by decide, by rintro b ⟨⟩; rfl,
      by rintro b ⟨⟩; rfl⟩
  stems := by decide

theorem visibleIn_offsetImage {b : BBox} (h : b = largePerson ∨ b = smallPerson) :
    b.VisibleIn offsetImage := by
  rcases h with rfl | rfl <;> constructor <;> norm_num [offsetImage, largePerson, smallPerson]

/-- The large person at the corner is scored. -/
theorem perfect_detection_scored_of_large_sample :
    Large (largePerson.onX offsetImage) (largePerson.onY offsetImage) ∧
      let gt := (gt_find_person_boxes_csv .decimal ⟨0, offsetExport⟩
        (bin_name offsetImage.file_name)).out
      overlaps (gt.corners 0)
        (dbox_to_xyxy (model_detection_to_box (largePerson.detection offsetImage 1))) := by
  have large : Large (largePerson.onX offsetImage) (largePerson.onY offsetImage) := by
    constructor <;> norm_num [largePerson, offsetImage, BBox.onX, BBox.onY, Span.length]
  exact ⟨large, (perfect_detection_scored_of_large Libc.decimal_readsDecimals offsetDocument_plain
    (show ¬ (⟨0, offsetExport⟩ : OpenResult).ret < 0 by decide) transform_annotations_offset
    (visibleIn_offsetImage (Or.inl rfl)) (r := ⟨0, 0, 160, 160⟩) (by decide +kernel)
    (by decide +kernel) 1).1 large⟩

/-- The small person in the middle is not, although the detection is exact. -/
theorem perfect_detection_not_scored :
    transform_annotations .exact offsetDocument = some offsetExport ∧
      smallPerson.VisibleIn offsetImage ∧
      (offsetDocument.keptBoxes .exact offsetImage)[1]? =
        keepBox .exact (SIZE / 640) (SIZE / 640) smallPerson ∧
      let gt := (gt_find_person_boxes_csv .decimal ⟨0, offsetExport⟩
        (bin_name offsetImage.file_name)).out
      ¬ overlaps (gt.corners 1)
        (dbox_to_xyxy (model_detection_to_box (smallPerson.detection offsetImage 1))) :=
  ⟨transform_annotations_offset, visibleIn_offsetImage (Or.inr rfl), by decide +kernel,
    by decide +kernel⟩

end PeopleDetection
