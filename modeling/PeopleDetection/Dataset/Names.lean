import PeopleDetection.Dataset.Images
import PeopleDetection.GroundTruth.RoundTrip

/-!
# The names of the dataset

The image exporter names a file by replacing substrings of its path, the annotation exporter
by splitting off the last extension. The two agree, keep images apart and let the firmware
find the record of an image in every directory without a second `jpg` in a name, and in no
other.
-/

namespace PeopleDetection

/-- The images that `transform_dataset_to_bin` finds. -/
structure ImageDirectory where
  names : List Bytes
  images : ∀ f ∈ names, ImageFile f

/-- The two exporters agree on the names of a directory. -/
structure ImageDirectory.NamedAlike (dir : ImageDirectory) : Prop where
  same : ∀ f ∈ dir.names, saved_name f = bin_name f
  distinct : ∀ f ∈ dir.names, ∀ g ∈ dir.names, saved_name f = saved_name g → f = g
  found : ∀ f ∈ dir.names, PlainName f → ∀ kept, Writable kept →
    namedFile ((recordText (bin_name f) kept).take (LINE_SIZE - 1)) = some (saved_name f)

/-- The exporters agree on one name exactly if the stem has no `jpg`. -/
theorem ImageFile.saved_name_eq_iff {f : Bytes} (h : ImageFile f) :
    saved_name f = bin_name f ↔ ¬ JPG_TEXT <:+: stem f := by
  rw [h.saved_name_eq, bin_name, List.append_left_inj]
  exact replace_eq_self_iff (by decide) (by decide)

/-- Images have different stems. -/
theorem ImageFile.eq_of_bin_name_eq {f g : Bytes} (hf : ImageFile f) (hg : ImageFile g)
    (same : bin_name f = bin_name g) : f = g := by
  rw [hf.eq, hg.eq, bin_name_inj same]

/-- The name in the record of an image is the name of the annotation exporter. -/
theorem namedFile_recordText {name : Bytes} {kept : List BBox} (plain : PlainName name)
    (h : Writable kept) :
    namedFile ((recordText (bin_name name) kept).take (LINE_SIZE - 1)) = some (bin_name name) := by
  obtain ⟨more, fields⟩ := lineFields_take_recordText plain h
  rw [namedFile, fields, List.head?_cons]

/-- The scripts name the images of a directory alike exactly if no stem has a `jpg`. -/
theorem namedAlike_iff (dir : ImageDirectory) :
    dir.NamedAlike ↔ ∀ f ∈ dir.names, ¬ JPG_TEXT <:+: stem f := by
  constructor
  · intro alike f hf
    exact (dir.images f hf).saved_name_eq_iff.mp (alike.same f hf)
  · intro single
    have same : ∀ f ∈ dir.names, saved_name f = bin_name f := fun f hf =>
      (dir.images f hf).saved_name_eq_iff.mpr (single f hf)
    refine ⟨same, ?_, ?_⟩
    · intro f hf g hg eq
      rw [same f hf, same g hg] at eq
      exact (dir.images f hf).eq_of_bin_name_eq (dir.images g hg) eq
    · intro f hf plain kept writable
      rw [same f hf]
      exact namedFile_recordText plain writable

/-- The images `jpg.jpg` and `bin.jpg`. -/
def jpgDirectory : ImageDirectory where
  names := [JPG_TEXT ++ DOT :: JPG_TEXT, BIN_TEXT ++ DOT :: JPG_TEXT]
  images f hf := by
    simp only [List.mem_cons, List.not_mem_nil, or_false] at hf
    rcases hf with rfl | rfl
    · exact ⟨List.suffix_append _ _, by decide⟩
    · exact ⟨List.suffix_append _ _, by decide⟩

/-- Both become `bin.bin`; the annotations of the first are under `jpg.bin`. -/
theorem jpgDirectory_not_namedAlike :
    saved_name (JPG_TEXT ++ DOT :: JPG_TEXT) = BIN_TEXT ++ BIN ∧
      bin_name (JPG_TEXT ++ DOT :: JPG_TEXT) = JPG_TEXT ++ BIN ∧
      saved_name (BIN_TEXT ++ DOT :: JPG_TEXT) = BIN_TEXT ++ BIN ∧
      ¬ jpgDirectory.NamedAlike := by
  refine ⟨by decide, by decide, by decide, fun alike => ?_⟩
  have same := alike.same (JPG_TEXT ++ DOT :: JPG_TEXT) List.mem_cons_self
  exact absurd same (by decide)

end PeopleDetection
