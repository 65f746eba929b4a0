import PeopleDetection.Benchmark.History
import PeopleDetection.Library.Loops

/-!
# Pixels between the exporter and the firmware

`save_bin` writes a picture of `TARGET_SIZE` row by row. The firmware reads the first bytes of
the file as rows of `NN_WIDTH` pixels. The sizes differ, so each row of the tensor starts 32
pixels earlier in the picture than the last one, and a part of the file is left over. A
picture of the size of the frame would be read back as it was written.
-/

namespace PeopleDetection

open Library

/-! ## Writing -/

/-- `TARGET_SIZE`. -/
abbrev TARGET_WIDTH : Nat := 256
abbrev TARGET_HEIGHT : Nat := 256

/-- An RGB picture: a byte for each row, column and channel. -/
structure Picture (width height : Nat) where
  pixel : Nat → Nat → Nat → UInt8

/-- `arr.tofile`. -/
def Picture.tofile {width height : Nat} (p : Picture width height) : Bytes :=
  (List.range height).flatMap fun r => (List.range width).flatMap fun c =>
    (List.range 3).map fun k => p.pixel r c k

section Saved

variable {Image : Type} (resize : Image → (width height : Nat) → Picture width height)

/-- The picture that `save_bin` saves. -/
def resized (img : Image) : Picture TARGET_WIDTH TARGET_HEIGHT :=
  resize img TARGET_WIDTH TARGET_HEIGHT

/-- The file that `save_bin` writes. -/
def save_bin (img : Image) : Bytes := (resized resize img).tofile

end Saved

/-! ## Reading -/

/-- The byte `((r*NN_WIDTH)+c)*NN_BPP+k` of the tensor. -/
def tensorIndex (r c k : Nat) : Nat := (r * NN_WIDTH.toNat + c) * NN_BPP.toNat + k

/-- The tensor is the picture: the file fills it, nothing of the file is left over, and every
pixel is in its place. -/
structure ReadsBack {width height : Nat} (p : Picture width height) (file : Bytes)
    (tensor : Nat → UInt8) : Prop where
  full : NN_IN_LEN ≤ file.length
  consumed : file.drop NN_IN_LEN = []
  pixels : ∀ r c k, r < NN_HEIGHT.toNat → c < NN_WIDTH.toNat → k < NN_BPP.toNat →
    tensor (tensorIndex r c k) = p.pixel r c k

section Index

variable {width height : Nat} (p : Picture width height)

theorem length_pixel (r c : Nat) : ((List.range 3).map fun k => p.pixel r c k).length = 3 := by
  rw [List.length_map, List.length_range]

theorem length_row (r : Nat) :
    ((List.range width).flatMap fun c => (List.range 3).map fun k => p.pixel r c k).length =
      width * 3 :=
  length_flatMap_range (length_pixel p r) width

theorem length_tofile : p.tofile.length = height * (width * 3) :=
  length_flatMap_range (length_row p) height

/-- The file holds the channels of the pixels in row-major order. -/
theorem getElem?_tofile {r c k : Nat} (hr : r < height) (hc : c < width) (hk : k < 3) :
    p.tofile[(r * width + c) * 3 + k]? = some (p.pixel r c k) := by
  have inRow : c * 3 + k < width * 3 := by omega
  have index : (r * width + c) * 3 + k = r * (width * 3) + (c * 3 + k) := by ring
  rw [index, Picture.tofile, getElem?_flatMap_range (length_row p) hr inRow,
    getElem?_flatMap_range (length_pixel p r) hc hk, List.getElem?_map, List.getElem?_range hk,
    Option.map_some]

/-- A byte of the file inside the tensor arrives there. -/
theorem fill_of_lt {buffer : Nat → UInt8} {data : Bytes} {i : Nat} {b : UInt8}
    (inside : i < NN_IN_LEN) (h : data[i]? = some b) : fill buffer data i = b := by
  rw [fill, List.getElem?_take_of_lt inside, h, Option.getD_some]

theorem tensorIndex_eq (r c k : Nat) : tensorIndex r c k = (r * 224 + c) * 3 + k := rfl

theorem tensorIndex_lt {r c k : Nat} (hr : r < 224) (hc : c < 224) (hk : k < 3) :
    tensorIndex r c k < NN_IN_LEN := by
  rw [tensorIndex_eq]
  simp only [NN_IN_LEN]
  omega

end Index

/-- A picture of the size of the frame is read back. -/
theorem readsBack_of_frame_size (p : Picture 224 224) (buffer : Nat → UInt8) :
    ReadsBack p p.tofile (fill buffer p.tofile) where
  full := (length_tofile p).ge
  consumed := List.drop_of_length_le (length_tofile p).le
  pixels _ _ _ hr hc hk := fill_of_lt (tensorIndex_lt hr hc hk) (getElem?_tofile p hr hc hk)

section Sheared

variable {Image : Type} (resize : Image → (width height : Nat) → Picture width height)
  (img : Image) (buffer : Nat → UInt8)

/-- What the tensor holds instead: the rows of the frame follow each other in rows of 256. -/
theorem fill_save_bin {r c k : Nat} (hr : r < 224) (hc : c < 224) (hk : k < 3) :
    fill buffer (save_bin resize img) (tensorIndex r c k) =
      (resized resize img).pixel ((r * 224 + c) / 256) ((r * 224 + c) % 256) k := by
  apply fill_of_lt (tensorIndex_lt hr hc hk)
  have place : tensorIndex r c k =
      ((r * 224 + c) / 256 * TARGET_WIDTH + (r * 224 + c) % 256) * 3 + k := by
    rw [tensorIndex_eq]
    simp only [TARGET_WIDTH]
    omega
  rw [place]
  exact getElem?_tofile (resized resize img) (by simp only [TARGET_HEIGHT]; omega)
    (by simp only [TARGET_WIDTH]; omega) hk

/-- A part of every saved file is left over. -/
theorem not_readsBack_save_bin (tensor : Nat → UInt8) :
    ¬ ReadsBack (resized resize img) (save_bin resize img) tensor := by
  intro h
  have short := List.drop_eq_nil_iff.mp h.consumed
  rw [save_bin, length_tofile] at short
  exact absurd short (by decide)

end Sheared

/-! ## The benchmark -/

/-- The inferences of a run see the images of its turns. -/
theorem exists_turn_of_executed {path : Bytes} {turns : List Turn} {i : Inference} :
    ∀ {buffer : Nat → UInt8}, i ∈ executed path buffer turns →
      ∃ t ∈ turns, ∃ before, i = t.inference path before := by
  induction turns with
  | nil =>
      intro buffer h
      simp [executed] at h
  | cons t turns ih =>
      intro buffer h
      have later : ∀ {before}, i ∈ executed path before turns →
          ∃ u ∈ t :: turns, ∃ before, i = u.inference path before := by
        intro before h
        obtain ⟨u, hu, found⟩ := ih h
        exact ⟨u, List.mem_cons_of_mem t hu, found⟩
      rw [executed] at h
      split_ifs at h
      · simp at h
      · exact later h
      · simp at h
      · cases List.mem_cons.mp h with
        | inl here => exact ⟨t, List.mem_cons_self, buffer, here⟩
        | inr h => exact later h

/-- No inference of a benchmark over saved pictures gets the picture that was saved: its rows
are sheared. -/
theorem saved_pictures_sheared {Image : Type}
    (resize : Image → (width height : Nat) → Picture width height) (img : Bytes → Image)
    (path : Bytes) (buffer : Nat → UInt8) (turns : List Turn)
    (saved : ∀ t ∈ turns, (t.file path).data = save_bin resize (img t.name)) :
    ∀ i ∈ executed path buffer turns,
      ¬ ReadsBack (resized resize (img i.name)) (save_bin resize (img i.name)) i.image ∧
        ∀ r c k, r < NN_HEIGHT.toNat → c < NN_WIDTH.toNat → k < NN_BPP.toNat →
          i.image (tensorIndex r c k) =
            (resized resize (img i.name)).pixel ((r * 224 + c) / 256) ((r * 224 + c) % 256) k := by
  intro i hi
  obtain ⟨t, ht, before, rfl⟩ := exists_turn_of_executed hi
  refine ⟨not_readsBack_save_bin resize _ _, ?_⟩
  intro r c k hr hc hk
  rw [Turn.inference, saved t ht]
  exact fill_save_bin resize (img t.name) before hr hc hk

/-! ## A stripe -/

/-- A picture with one red pixel, at the end of the first row of the frame. -/
def redPixel (_ : Unit) (width height : Nat) : Picture width height where
  pixel r c k := if r = 0 ∧ c = 224 ∧ k = 0 then 255 else 0

/-- A directory with the file of that picture. -/
def redTurn : Turn where
  readdir := 0
  name := [97]
  isDir := false
  openImage _ := ⟨0, save_bin redPixel ()⟩
  csv := ⟨-2, []⟩
  t0 := 0
  t1 := 1

theorem executed_redTurn : executed dir_path (fun _ => 0) [redTurn] =
    [redTurn.inference dir_path fun _ => 0] := by
  have opened : ¬ (redTurn.file dir_path).ret < 0 := (by decide : ¬ (0 : Int) < 0)
  rw [executed_cons_of_file (by decide) rfl opened]
  rfl

theorem saved_pictures_sheared_sample :
    let i := redTurn.inference dir_path fun _ => 0
    i ∈ executed dir_path (fun _ => 0) [redTurn] ∧
      ¬ ReadsBack (resized redPixel ()) (save_bin redPixel ()) i.image := by
  intro i
  have mem : i ∈ executed dir_path (fun _ => 0) [redTurn] :=
    executed_redTurn ▸ List.mem_singleton_self i
  have saved : ∀ t ∈ [redTurn], (t.file dir_path).data = save_bin redPixel () := by
    intro t ht
    rw [List.mem_singleton.mp ht]
    rfl
  exact ⟨mem, (saved_pictures_sheared redPixel (fun _ => ()) dir_path (fun _ => 0) [redTurn] saved
    i mem).1⟩

/-- The red pixel becomes the first one of the second row of the tensor. -/
theorem red_pixel_moves :
    let image := (redTurn.inference dir_path fun _ => 0).image
    image (tensorIndex 1 0 0) = 255 ∧ (resized redPixel ()).pixel 1 0 0 = 0 ∧
      ¬ ReadsBack (resized redPixel ()) (save_bin redPixel ()) image := by
  intro image
  have moved := fill_save_bin redPixel () (fun _ => 0) (r := 1) (c := 0) (k := 0) (by decide)
    (by decide) (by decide)
  have red : (resized redPixel ()).pixel ((1 * 224 + 0) / 256) ((1 * 224 + 0) % 256) 0 = 255 := rfl
  have same : image = fill (fun _ => 0) (save_bin redPixel ()) := by
    simp only [image, Turn.inference, Turn.file, redTurn]
  refine ⟨?_, rfl, not_readsBack_save_bin redPixel () image⟩
  rw [same, moved, red]

end PeopleDetection
