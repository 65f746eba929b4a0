import PeopleDetection.Arithmetic

/-!
# Boxes

The two box formats of the firmware, the conversion of a detection to pixels, and the
overlap of two boxes. Ground truth is an upper left corner with a size, a detection is a
centre with a size in units of the picture, and both are compared by their corners.
-/

namespace PeopleDetection

/-- The frame of the network, in pixels. -/
abbrev NN_WIDTH : Int := 224
abbrev NN_HEIGHT : Int := 224
abbrev NN_BPP : Int := 3

/-- `od_pp_outBuffer_t`. -/
structure OdPpOutBuffer (F : Type) where
  x_center : F
  y_center : F
  width : F
  height : F
  conf : F
  class_index : Int
  deriving DecidableEq

/-- `struct dbox`. -/
structure DBox where
  x : Int
  y : Int
  w : Int
  h : Int
  deriving DecidableEq

/-- `struct box_xyxy`. -/
structure BoxXyxy (F : Type) where
  x0 : F
  y0 : F
  x1 : F
  y1 : F
  deriving DecidableEq

section Program

variable {F : Type} [Zero F] [CFloat F]

open CFloat

def xywh_to_xyxy (x y w h : F) : BoxXyxy F := ⟨x, y, x + w, y + h⟩

def dbox_to_xyxy (b : DBox) : BoxXyxy F :=
  ⟨ofInt b.x, ofInt b.y, ofInt (i32 (b.x + b.w)), ofInt (i32 (b.y + b.h))⟩

/-- `1e-6f`. -/
def epsilon : F := ofInt 1 / ofInt 1000000

def iou_xyxy (a b : BoxXyxy F) : F :=
  let x1 := MAX a.x0 b.x0
  let y1 := MAX a.y0 b.y0
  let x2 := MIN a.x1 b.x1
  let y2 := MIN a.y1 b.y1
  let w := x2 - x1
  let h := y2 - y1
  if w ≤ 0 ∨ h ≤ 0 then 0
  else
    let inter := w * h
    let area_a := MAX 0 (a.x1 - a.x0) * MAX 0 (a.y1 - a.y0)
    let area_b := MAX 0 (b.x1 - b.x0) * MAX 0 (b.y1 - b.y0)
    if area_a ≤ 0 ∨ area_b ≤ 0 then 0
    else inter / (area_a + area_b - inter + epsilon)

/-- `clamp_point`, without its unused result. -/
def clamp_point (x y : Int) : Int × Int :=
  let x := if x < 0 then 0 else x
  let y := if y < 0 then 0 else y
  let x := if x ≥ NN_WIDTH then NN_WIDTH - 1 else x
  let y := if y ≥ NN_HEIGHT then NN_HEIGHT - 1 else y
  (x, y)

def convert_length (wi hi : F) : Int × Int :=
  (toInt (ofInt NN_WIDTH * wi), toInt (ofInt NN_HEIGHT * hi))

def convert_point (xi yi : F) : Int × Int :=
  (toInt (ofInt NN_WIDTH * xi), toInt (ofInt NN_HEIGHT * yi))

def model_detection_to_box (d : OdPpOutBuffer F) : DBox :=
  let (xc, yc) := convert_point d.x_center d.y_center
  let (w, h) := convert_length d.width d.height
  let x0 := i32 (xc - Int.tdiv (i32 (w + 1)) 2)
  let y0 := i32 (yc - Int.tdiv (i32 (h + 1)) 2)
  let x1 := i32 (xc + Int.tdiv (i32 (w + 1)) 2)
  let y1 := i32 (yc + Int.tdiv (i32 (h + 1)) 2)
  let (x0, y0) := clamp_point x0 y0
  let (x1, y1) := clamp_point x1 y1
  let w := i32 (x1 - x0 + 1)
  let h := i32 (y1 - y0 + 1)
  ⟨x0, y0, w, h⟩

/-- `IOU_THRESH`. -/
def half : F := ofInt 1 / ofInt 2

/-- `iou_xyxy(g, p) >= 0.5f`. -/
def overlaps (g p : BoxXyxy F) : Prop := half ≤ iou_xyxy g p

instance (g p : BoxXyxy F) : Decidable (overlaps g p) :=
  inferInstanceAs (Decidable (half ≤ iou_xyxy g p))

end Program
end PeopleDetection
