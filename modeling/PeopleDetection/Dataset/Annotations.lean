import Mathlib.Algebra.Order.Floor.Ring
import Mathlib.Data.List.Nodup
import Mathlib.Data.Rat.Floor
import PeopleDetection.Arithmetic
import PeopleDetection.GroundTruth.Numerals

/-!
# The annotation exporter

`transform_annotations` turns a COCO document into the text of the annotation file. It
groups the person boxes by image, scales each box to the frame of `SIZE` pixels, clamps
it, drops what is smaller than a pixel, and writes one line for every image that keeps
a box.

Python's floats are rational numbers here, with a rounding function behind every
operation; `FloatArith.exact` rounds nothing. Dividing by an image size of zero is the
script's only failure. `written` lists the images with a line, in file order.
-/

namespace PeopleDetection

/-- The frame of the annotation file, in pixels. -/
abbrev SIZE : ℚ := 256

/-- The largest length of a Python list. -/
abbrev PY_SSIZE_T_MAX : Nat := 2 ^ 63 - 1

/-- An entry of `coco["images"]`. -/
structure CocoImage where
  id : Int
  file_name : Bytes
  width : ℚ
  height : ℚ
  deriving DecidableEq

/-- A bounding box: upper left corner and size. -/
structure BBox where
  x : ℚ
  y : ℚ
  w : ℚ
  h : ℚ
  deriving DecidableEq

/-- An entry of `coco["annotations"]`. -/
structure CocoAnnotation where
  image_id : Int
  category_id : Int
  bbox : BBox

/-- A COCO document. Its annotations are a Python list. -/
structure CocoDocument where
  images : List CocoImage
  annotations : List CocoAnnotation
  annotations_length : annotations.length ≤ PY_SSIZE_T_MAX

/-- `id_to_meta.get(img_id)`. A later image replaces an earlier one with the same id. -/
def CocoDocument.id_to_meta (doc : CocoDocument) (img_id : Int) : Option CocoImage :=
  doc.images.reverse.find? (·.id = img_id)

/-- `img_to_boxes[img_id].append(bbox)` for a `defaultdict(list)` in insertion order. -/
def appendBox : List (Int × List BBox) → Int → BBox → List (Int × List BBox)
  | [], img_id, bbox => [(img_id, [bbox])]
  | (key, boxes) :: groups, img_id, bbox =>
      if key = img_id then (key, boxes ++ [bbox]) :: groups
      else (key, boxes) :: appendBox groups img_id bbox

/-- The grouping loop over `coco["annotations"]`, persons only. -/
def img_to_boxes (annotations : List CocoAnnotation) : List (Int × List BBox) :=
  annotations.foldl
    (fun groups ann =>
      if ann.category_id ≠ 1 then groups else appendBox groups ann.image_id ann.bbox) []

/-- `lo if v < lo else hi if v > hi else v`. -/
def clamp (v lo hi : ℚ) : ℚ := if v < lo then lo else if v > hi then hi else v

/-- Scaling and clamping of one box, before it may be dropped. -/
def clampBox (ar : FloatArith) (sx sy : ℚ) (b : BBox) : BBox :=
  let x := ar.round (b.x * sx)
  let y := ar.round (b.y * sy)
  let w := ar.round (b.w * sx)
  let h := ar.round (b.h * sy)
  let x := clamp x 0 (ar.round (SIZE - 1))
  let y := clamp y 0 (ar.round (SIZE - 1))
  let w := clamp w 0 (ar.round (SIZE - x))
  let h := clamp h 0 (ar.round (SIZE - y))
  ⟨x, y, w, h⟩

/-- The body of the loop over the boxes of an image; `none` is a dropped box. -/
def keepBox (ar : FloatArith) (sx sy : ℚ) (b : BBox) : Option BBox :=
  let c := clampBox ar sx sy b
  if c.w < 1 ∨ c.h < 1 then none else some c

/-- `name.rsplit(".", 1)[0]`. -/
def stem (name : Bytes) : Bytes :=
  match name.reverse.dropWhile (· ≠ DOT) with
  | [] => name
  | _ :: rest => rest.reverse

/-- `".bin"`. -/
abbrev BIN : Bytes := [DOT, 98, 105, 110]

/-- `jpg_name.rsplit(".", 1)[0] + ".bin"`. -/
def bin_name (jpg_name : Bytes) : Bytes := stem jpg_name ++ BIN

/-- Rounding to the nearest integer, ties to even. -/
def roundHalfEven (q : ℚ) : Int :=
  let below := ⌊q⌋
  if q - below < 1 / 2 then below
  else if 1 / 2 < q - below then below + 1
  else if below % 2 = 0 then below else below + 1

/-- A coordinate rounded to three decimals. -/
def round3 (v : ℚ) : ℚ := roundHalfEven (1000 * v) / 1000

/-- `f"{v:.3f}"`. -/
def format3 (v : ℚ) : Bytes :=
  if v < 0 then MINUS :: fixed3 (roundHalfEven (1000 * -v)).toNat
  else fixed3 (roundHalfEven (1000 * v)).toNat

/-- `flat += [x, y, w, h]` over the kept boxes. -/
def flat (kept : List BBox) : List ℚ := kept.flatMap fun b => [b.x, b.y, b.w, b.h]

/-- The line of an image, without its newline. -/
def recordText (name : Bytes) (kept : List BBox) : Bytes :=
  name ++ COMMA :: (numeral kept.length ++ COMMA ::
    [COMMA].intercalate ((flat kept).map format3))

/-- The boxes an image keeps. -/
def keptOf (ar : FloatArith) (im : CocoImage) (boxes : List BBox) : List BBox :=
  boxes.filterMap (keepBox ar (ar.round (SIZE / im.width)) (ar.round (SIZE / im.height)))

/-- One turn of the writing loop; `none` is a `ZeroDivisionError`. -/
def writeGroup (ar : FloatArith) (doc : CocoDocument) (group : Int × List BBox) :
    Option Bytes :=
  match doc.id_to_meta group.1 with
  | none => some []
  | some im =>
      if im.width = 0 ∨ im.height = 0 then none
      else
        let kept := keptOf ar im group.2
        if kept = [] then some []
        else some (recordText (bin_name im.file_name) kept ++ [LF])

/-- The whole file, unless the script fails. -/
def transform_annotations (ar : FloatArith) (doc : CocoDocument) : Option Bytes :=
  ((img_to_boxes doc.annotations).mapM (writeGroup ar doc)).map List.flatten

/-! ## Grouping -/

/-- The person boxes under an image id, in annotation order. -/
def boxesOf (annotations : List CocoAnnotation) (img_id : Int) : List BBox :=
  (annotations.filter fun a => a.category_id = 1 ∧ a.image_id = img_id).map (·.bbox)

section Grouping

variable {groups : List (Int × List BBox)} {img_id key : Int} {bbox : BBox} {boxes : List BBox}

theorem keys_appendBox :
    (appendBox groups img_id bbox).map Prod.fst =
      if img_id ∈ groups.map Prod.fst then groups.map Prod.fst
      else groups.map Prod.fst ++ [img_id] := by
  induction groups with
  | nil => rfl
  | cons g groups ih =>
      obtain ⟨k, bs⟩ := g
      by_cases hk : k = img_id
      · simp [appendBox, hk]
      · have hk' : img_id ≠ k := fun h => hk h.symm
        rw [appendBox, if_neg hk, List.map_cons, ih, List.map_cons]
        by_cases hm : img_id ∈ groups.map Prod.fst
        · rw [if_pos hm, if_pos (List.mem_cons_of_mem _ hm)]
        · rw [if_neg hm, if_neg (by simpa [hk'] using hm), List.cons_append]

/-- Appending to one group extends that group and creates no other. -/
theorem mem_appendBox (nodup : (groups.map Prod.fst).Nodup) :
    (key, boxes) ∈ appendBox groups img_id bbox ↔
      (key ≠ img_id ∧ (key, boxes) ∈ groups) ∨
      (key = img_id ∧ ((∃ old, (key, old) ∈ groups ∧ boxes = old ++ [bbox]) ∨
        (key ∉ groups.map Prod.fst ∧ boxes = [bbox]))) := by
  induction groups with
  | nil => by_cases hk : key = img_id <;> simp [appendBox, hk]
  | cons g groups ih =>
      obtain ⟨k, bs⟩ := g
      rw [List.map_cons, List.nodup_cons] at nodup
      have absent : ∀ old, (k, old) ∉ groups :=
        fun old h => nodup.1 (List.mem_map.mpr ⟨_, h, rfl⟩)
      by_cases hk : k = img_id
      · subst hk
        rw [appendBox, if_pos rfl]
        by_cases hkey : key = k
        · subst hkey
          simp [absent]
        · simp [hkey]
      · rw [appendBox, if_neg hk, List.mem_cons, ih nodup.2]
        by_cases hkey : key = img_id
        · subst hkey
          have hne : key ≠ k := fun h => hk h.symm
          simp [hne]
        · simp [hkey]

/-- A dictionary of groups: unique keys, and every group holds its person boxes. -/
structure Groups (annotations : List CocoAnnotation) (groups : List (Int × List BBox)) :
    Prop where
  nodup : (groups.map Prod.fst).Nodup
  mem_iff : ∀ key boxes, (key, boxes) ∈ groups ↔
    boxes = boxesOf annotations key ∧ boxes ≠ []

theorem boxesOf_concat (annotations : List CocoAnnotation) (ann : CocoAnnotation)
    (key : Int) :
    boxesOf (annotations ++ [ann]) key =
      if ann.category_id = 1 ∧ ann.image_id = key
      then boxesOf annotations key ++ [ann.bbox] else boxesOf annotations key := by
  by_cases h : ann.category_id = 1 ∧ ann.image_id = key
  · simp [boxesOf, h]
  · rw [if_neg h]
    simp only [boxesOf, List.filter_append, List.map_append]
    rw [List.filter_cons_of_neg (by simpa using h)]
    simp

/-- One person annotation keeps the dictionary in order. -/
theorem Groups.appendBox {annotations : List CocoAnnotation} (inv : Groups annotations groups)
    (ann : CocoAnnotation) (person : ann.category_id = 1) :
    Groups (annotations ++ [ann]) (appendBox groups ann.image_id ann.bbox) where
  nodup := by
    rw [keys_appendBox]
    split
    · exact inv.nodup
    · next absent =>
        exact List.nodup_append.mpr
          ⟨inv.nodup, List.nodup_singleton _, by
            intro a ha b hb hab
            rw [List.mem_singleton] at hb
            exact absent (hb ▸ hab ▸ ha)⟩
  mem_iff key boxes := by
    have present : key ∈ groups.map Prod.fst ↔ boxesOf annotations key ≠ [] := by
      rw [List.mem_map]
      constructor
      · rintro ⟨⟨k, bs⟩, hm, rfl⟩
        obtain ⟨rfl, hne⟩ := (inv.mem_iff k bs).mp hm
        exact hne
      · intro hne
        exact ⟨(key, boxesOf annotations key), (inv.mem_iff _ _).mpr ⟨rfl, hne⟩, rfl⟩
    rw [mem_appendBox inv.nodup, boxesOf_concat]
    by_cases hkey : key = ann.image_id
    · subst hkey
      simp only [person, ne_eq, not_true_eq_false, false_and, true_and, false_or, and_self,
        if_true, inv.mem_iff, present]
      constructor
      · rintro (⟨old, ⟨rfl, -⟩, rfl⟩ | ⟨none, rfl⟩)
        · exact ⟨rfl, by simp⟩
        · rw [not_not] at none
          rw [none]
          exact ⟨rfl, by simp⟩
      · rintro ⟨rfl, -⟩
        by_cases hb : boxesOf annotations ann.image_id = []
        · exact Or.inr ⟨not_not.mpr hb, by rw [hb, List.nil_append]⟩
        · exact Or.inl ⟨_, ⟨rfl, hb⟩, rfl⟩
    · have hkey' : ¬ (ann.category_id = 1 ∧ ann.image_id = key) := fun h => hkey h.2.symm
      rw [if_neg hkey', inv.mem_iff]
      simp [hkey]

/-- The grouping loop builds the dictionary of person boxes. -/
theorem groups_img_to_boxes (annotations : List CocoAnnotation) :
    Groups annotations (img_to_boxes annotations) := by
  induction annotations using List.reverseRecOn with
  | nil => exact ⟨List.nodup_nil, fun key boxes => by simp [img_to_boxes, boxesOf]⟩
  | append_singleton annotations ann ih =>
      rw [img_to_boxes, List.foldl_append, List.foldl_cons, List.foldl_nil]
      split
      · next other =>
          have same : ∀ key, boxesOf (annotations ++ [ann]) key = boxesOf annotations key :=
            fun key => by rw [boxesOf_concat, if_neg fun h => other h.1]
          exact ⟨ih.nodup, fun key boxes => by rw [same]; exact ih.mem_iff key boxes⟩
      · next person => exact ih.appendBox ann (not_not.mp person)

end Grouping

/-! ## Images and their boxes -/

namespace CocoDocument

variable (ar : FloatArith) (doc : CocoDocument) {im : CocoImage} {img_id : Int}

/-- The person boxes of an image: those whose annotation refers to it. -/
def personBoxes (im : CocoImage) : List BBox :=
  (doc.annotations.filter fun a =>
    a.category_id = 1 ∧ doc.id_to_meta a.image_id = some im).map (·.bbox)

/-- The boxes of an image that the exporter keeps, in annotation order. -/
def keptBoxes (im : CocoImage) : List BBox := keptOf ar im (doc.personBoxes im)

/-- The images with a line in the file, with their boxes, in file order. -/
def written : List (CocoImage × List BBox) :=
  (img_to_boxes doc.annotations).filterMap fun group =>
    (doc.id_to_meta group.1).bind fun im =>
      let kept := keptOf ar im group.2
      if kept = [] then none else some (im, kept)

variable {doc}

theorem id_of_id_to_meta (h : doc.id_to_meta img_id = some im) : im.id = img_id := by
  simpa using List.find?_some h

theorem mem_of_id_to_meta (h : doc.id_to_meta img_id = some im) : im ∈ doc.images :=
  List.mem_reverse.mp (List.mem_of_find?_eq_some h)

theorem personBoxes_eq_boxesOf (h : doc.id_to_meta im.id = some im) :
    doc.personBoxes im = boxesOf doc.annotations im.id := by
  rw [personBoxes, boxesOf]
  congr 1
  apply List.filter_congr
  intro a _
  have same : doc.id_to_meta a.image_id = some im ↔ a.image_id = im.id :=
    ⟨fun ha => (id_of_id_to_meta ha).symm, fun ha => by rw [ha, h]⟩
  simp only [same]

/-- An image that another one with its id replaced has no boxes. -/
theorem personBoxes_eq_nil (h : doc.id_to_meta im.id ≠ some im) :
    doc.personBoxes im = [] := by
  rw [personBoxes, List.map_eq_nil_iff, List.filter_eq_nil_iff]
  intro a _ ha
  simp only [decide_eq_true_eq] at ha
  exact h (by rw [id_of_id_to_meta ha.2, ha.2])

/-- An image has a line exactly when it keeps a box, and the line holds those boxes. -/
theorem mem_written {kept : List BBox} :
    (im, kept) ∈ doc.written ar ↔ kept = doc.keptBoxes ar im ∧ kept ≠ [] := by
  have groups := groups_img_to_boxes doc.annotations
  simp only [written, List.mem_filterMap, Option.bind_eq_some_iff, Option.ite_none_left_eq_some,
    Option.some.injEq, Prod.mk.injEq]
  constructor
  · rintro ⟨⟨key, boxes⟩, hm, im', meta', hne, rfl, rfl⟩
    obtain ⟨rfl, -⟩ := (groups.mem_iff key boxes).mp hm
    have hid := id_of_id_to_meta meta'
    subst hid
    rw [keptBoxes, personBoxes_eq_boxesOf meta']
    exact ⟨rfl, hne⟩
  · rintro ⟨rfl, hne⟩
    have found : doc.id_to_meta im.id = some im := by
      by_contra h
      rw [keptBoxes, personBoxes_eq_nil h] at hne
      exact hne rfl
    rw [keptBoxes, personBoxes_eq_boxesOf found] at hne ⊢
    have boxes : boxesOf doc.annotations im.id ≠ [] := fun h => by
      rw [h] at hne
      exact hne rfl
    exact ⟨(im.id, _), (groups.mem_iff _ _).mpr ⟨rfl, boxes⟩, im, found, hne, rfl, rfl⟩

theorem mem_images_of_mem_written {r : CocoImage × List BBox} (h : r ∈ doc.written ar) :
    r.1 ∈ doc.images := by
  simp only [written, List.mem_filterMap, Option.bind_eq_some_iff,
    Option.ite_none_left_eq_some, Option.some.injEq] at h
  obtain ⟨group, -, im, found, -, rfl⟩ := h
  exact mem_of_id_to_meta found

/-- No image has two lines. -/
theorem nodup_written : ((doc.written ar).map Prod.fst).Nodup := by
  have keys := (groups_img_to_boxes doc.annotations).nodup
  rw [List.Nodup, List.pairwise_map] at keys ⊢
  rw [written, List.pairwise_filterMap]
  refine keys.imp ?_
  intro a b hab r hr r' hr' same
  simp only [Option.bind_eq_some_iff, Option.ite_none_left_eq_some, Option.some.injEq] at hr hr'
  obtain ⟨im, hi, -, rfl⟩ := hr
  obtain ⟨im', hi', -, rfl⟩ := hr'
  apply hab
  rw [← id_of_id_to_meta hi, ← id_of_id_to_meta hi']
  exact congrArg CocoImage.id same

/-- The file consists of the lines of the written images. -/
theorem transform_annotations_eq {csv : Bytes} (h : transform_annotations ar doc = some csv) :
    csv = ((doc.written ar).map fun r => recordText (bin_name r.1.file_name) r.2).flatMap
      (· ++ [LF]) := by
  simp only [transform_annotations, Option.map_eq_some_iff] at h
  obtain ⟨parts, hparts, rfl⟩ := h
  rw [written]
  generalize img_to_boxes doc.annotations = groups at hparts
  induction groups generalizing parts with
  | nil =>
      rw [List.mapM_nil] at hparts
      cases hparts
      rfl
  | cons group groups ih =>
      rw [List.mapM_cons] at hparts
      simp only [bind, Option.bind_eq_some_iff, pure, Option.some.injEq] at hparts
      obtain ⟨part, hpart, rest, hrest, rfl⟩ := hparts
      rw [List.flatten_cons, ih rest hrest]
      simp only [writeGroup] at hpart
      cases hm : doc.id_to_meta group.1 with
      | none =>
          simp only [hm, Option.some.injEq] at hpart
          simp [← hpart, hm]
      | some im =>
          simp only [hm] at hpart
          split at hpart
          · cases hpart
          · by_cases hk : keptOf ar im group.2 = []
            · simp only [hk, if_true, Option.some.injEq] at hpart
              simp [← hpart, hm, hk]
            · simp only [hk, if_false, Option.some.injEq] at hpart
              simp [← hpart, hm, hk]

end CocoDocument
end PeopleDetection
