import PeopleDetection.GroundTruth.RoundTrip

/-!
# The exported file, read by the firmware

The exporter and the reader are composed. Every image with a line is found under its
own name, with its first 64 boxes; every other image is not found, whatever the length
of the lines in between.
-/

namespace PeopleDetection

open Library

/-- A document of the round trip: plain file names with pairwise distinct stems. -/
structure CocoDocument.Plain (doc : CocoDocument) : Prop where
  name : ∀ im ∈ doc.images, PlainName im.file_name
  stems : (doc.images.map fun im => stem im.file_name).Nodup

namespace CocoDocument

variable {ar : FloatArith} {doc : CocoDocument} {csv : Bytes} {im : CocoImage}
  {kept : List BBox}

theorem writable_of_mem_written (hm : (im, kept) ∈ doc.written ar) : Writable kept := by
  obtain ⟨rfl, nonempty⟩ := (mem_written ar).mp hm
  refine ⟨nonempty, ?_, fun v hv => inFrame_of_mem_flat ar hv⟩
  have keep : (doc.keptBoxes ar im).length ≤ (doc.personBoxes im).length :=
    List.length_filterMap_le _ _
  have person : (doc.personBoxes im).length ≤ doc.annotations.length := by
    rw [personBoxes, List.length_map]
    exact List.length_filter_le _ _
  have := doc.annotations_length
  simp only [PY_SSIZE_T_MAX] at this
  omega

namespace Plain

variable (plain : doc.Plain)

include plain

theorem name_of_mem_written {r : CocoImage × List BBox} (hr : r ∈ doc.written ar) :
    PlainName r.1.file_name :=
  plain.name _ (mem_images_of_mem_written ar hr)

/-- Different images have different names in the file. -/
theorem eq_of_bin_name_eq {a b : CocoImage} (ha : a ∈ doc.images) (hb : b ∈ doc.images)
    (same : bin_name a.file_name = bin_name b.file_name) : a = b :=
  List.inj_on_of_nodup_map plain.stems ha hb (bin_name_inj same)

/-- A record is a single line without NUL. -/
theorem not_mem_recordText {b : UInt8} {r : CocoImage × List BBox} (hr : r ∈ doc.written ar)
    (hname : ∀ name, PlainName name → b ∉ bin_name name) (hb : isPayload b = false) :
    b ∉ recordText (bin_name r.1.file_name) r.2 := by
  intro hm
  rw [recordText, List.mem_append] at hm
  rcases hm with hm | hm
  · exact hname _ (plain.name_of_mem_written hr) hm
  · rw [(writable_of_mem_written hr).isPayload_of_mem hm] at hb
    cases hb

theorem lf_not_mem_recordText {r : CocoImage × List BBox} (hr : r ∈ doc.written ar) :
    LF ∉ recordText (bin_name r.1.file_name) r.2 :=
  plain.not_mem_recordText hr (fun _ h => h.lf_not_mem) (by decide)

variable (out : transform_annotations ar doc = some csv)

include out

theorem nul_not_mem_csv : NUL ∉ csv := by
  rw [transform_annotations_eq ar out]
  intro hm
  obtain ⟨line, hline, hb⟩ := List.mem_flatMap.mp hm
  obtain ⟨r, hr, rfl⟩ := List.mem_map.mp hline
  rw [List.mem_append, List.mem_singleton] at hb
  rcases hb with hb | hb
  · exact plain.not_mem_recordText hr (fun _ h => h.nul_not_mem) (by decide) hb
  · cases hb

/-- The file has one newline for every image with a line. -/
theorem count_lf_csv : csv.count LF = (doc.written ar).length := by
  rw [transform_annotations_eq ar out]
  have clean : ∀ r ∈ doc.written ar, LF ∉ recordText (bin_name r.1.file_name) r.2 :=
    fun r hr => plain.lf_not_mem_recordText hr
  generalize doc.written ar = rs at clean
  induction rs with
  | nil => rfl
  | cons r rs ih =>
      rw [List.map_cons, List.flatMap_cons, List.count_append, List.count_append,
        List.count_eq_zero.mpr (clean r (by simp)),
        ih fun r' hr' => clean r' (List.mem_cons_of_mem _ hr'), List.length_cons]
      simp only [List.count_singleton_self]
      omega

/-- Only the lines of the written images, cut to the buffer, can answer a lookup. -/
theorem answer_records {F : Type} [Zero F] (lc : Libc F) (other : Bytes) :
    answer lc (records csv) (bin_name other) =
      answer lc ((doc.written ar).map fun r =>
        (recordText (bin_name r.1.file_name) r.2).take (LINE_SIZE - 1)) (bin_name other) := by
  rw [transform_annotations_eq ar out]
  have split := records_flatMap_append
    ((doc.written ar).map fun r => recordText (bin_name r.1.file_name) r.2)
    (by
      intro l hl
      obtain ⟨r, hr, rfl⟩ := List.mem_map.mp hl
      exact plain.lf_not_mem_recordText hr) []
  rw [List.append_nil] at split
  rw [split]
  apply answer_congr
  rw [show records [] = [] from rfl, List.append_nil, filter_flatMap_chunks]
  · rw [List.map_map]
    rfl
  · intro l hl
    obtain ⟨r, hr, rfl⟩ := List.mem_map.mp hl
    exact silent_tail_recordText (plain.name_of_mem_written hr) (writable_of_mem_written hr) other

/-- Looking up an image with a line finds the boxes of that line. -/
theorem answer_records_of_mem {lc : Libc ℚ} (reads : lc.ReadsDecimals)
    (hm : (im, kept) ∈ doc.written ar) :
    answer lc (records csv) (bin_name im.file_name) = (0, roundedRows (kept.take 64)) := by
  rw [plain.answer_records out, answer, List.find?_map]
  have hits : ∀ r ∈ doc.written ar,
      namedFile ((recordText (bin_name r.1.file_name) r.2).take (LINE_SIZE - 1)) =
        some (bin_name r.1.file_name) := by
    intro r hr
    obtain ⟨more, hmore⟩ :=
      lineFields_take_recordText (plain.name_of_mem_written hr) (writable_of_mem_written hr)
    rw [namedFile, hmore]
    rfl
  cases hf : (doc.written ar).find? ((fun line => namedFile line = some (bin_name im.file_name)) ∘
      fun r => (recordText (bin_name r.1.file_name) r.2).take (LINE_SIZE - 1)) with
  | none =>
      have miss := List.find?_eq_none.mp hf _ hm
      rw [Function.comp_apply, hits _ hm] at miss
      simp at miss
  | some r =>
      have hr := List.mem_of_find?_eq_some hf
      have named := List.find?_some hf
      simp only [Function.comp_apply, hits r hr, decide_eq_true_eq, Option.some.injEq] at named
      have same : r.1 = im := plain.eq_of_bin_name_eq (mem_images_of_mem_written ar hr)
        (mem_images_of_mem_written ar hm) named
      have boxes : r.2 = kept := by
        rw [((mem_written ar).mp hr).1, ((mem_written ar).mp hm).1, same]
      obtain ⟨more, hmore⟩ :=
        lineFields_take_recordText (plain.name_of_mem_written hr) (writable_of_mem_written hr)
      rw [Option.map_some]
      simp only [hmore, List.tail_cons]
      rw [interpret_recordText reads (writable_of_mem_written hr), boxes]

/-- Looking up any other name finds nothing. -/
theorem answer_records_of_not_mem {F : Type} [Zero F] (lc : Libc F) (other : Bytes)
    (absent : ∀ r ∈ doc.written ar, bin_name r.1.file_name ≠ bin_name other) :
    answer lc (records csv) (bin_name other) = (-ENOENT, .zero) := by
  rw [plain.answer_records out, answer, List.find?_eq_none.mpr]
  intro l hl
  obtain ⟨r, hr, rfl⟩ := List.mem_map.mp hl
  obtain ⟨more, hmore⟩ :=
    lineFields_take_recordText (plain.name_of_mem_written hr) (writable_of_mem_written hr)
  rw [namedFile, hmore]
  simpa using absent r hr

/-- The lookup of an image that keeps boxes. -/
theorem lookup_of_kept {lc : Libc ℚ} (reads : lc.ReadsDecimals) {file : OpenResult}
    (opened : ¬ file.ret < 0) (text : file.data = csv) (some : doc.keptBoxes ar im ≠ []) :
    (gt_find_person_boxes_csv lc file (bin_name im.file_name)).Agrees
      (0, roundedRows ((doc.keptBoxes ar im).take 64)) := by
  have agrees := gt_find_agrees_answer lc opened (text ▸ plain.nul_not_mem_csv out)
    (bin_name im.file_name)
  rw [text, plain.answer_records_of_mem out reads ((mem_written ar).mpr ⟨rfl, some⟩)] at agrees
  exact agrees

/-- The lookup of an image without boxes. -/
theorem lookup_of_not_kept (lc : Libc ℚ) {file : OpenResult} (opened : ¬ file.ret < 0)
    (text : file.data = csv) (member : im ∈ doc.images) (none : doc.keptBoxes ar im = []) :
    (gt_find_person_boxes_csv lc file (bin_name im.file_name)).Agrees (-ENOENT, .zero) := by
  have agrees := gt_find_agrees_answer lc opened (text ▸ plain.nul_not_mem_csv out)
    (bin_name im.file_name)
  rw [text, plain.answer_records_of_not_mem out lc im.file_name fun r hr same => by
    have hi := plain.eq_of_bin_name_eq (mem_images_of_mem_written ar hr) member same
    obtain ⟨boxes, nonempty⟩ := (mem_written ar).mp hr
    rw [hi] at boxes
    exact nonempty (boxes.trans none)] at agrees
  exact agrees

end Plain
end CocoDocument

/-- The ground truth makes the round trip. For every image of the document, the firmware
finds under the name of its binary file the boxes that the exporter kept, at most 64 of
them and rounded to three decimals, and finds nothing for an image without such boxes. -/
theorem gt_find_exported {lc : Libc ℚ} (reads : lc.ReadsDecimals) (ar : FloatArith)
    {doc : CocoDocument} (plain : doc.Plain) {csv : OpenResult} (opened : ¬ csv.ret < 0)
    (exported : transform_annotations ar doc = some csv.data)
    {im : CocoImage} (member : im ∈ doc.images) :
    let l := gt_find_person_boxes_csv lc csv (bin_name im.file_name)
    let kept := doc.keptBoxes ar im
    if kept = [] then l.ret = -ENOENT ∧ l.out = .zero
    else l.ret = 0 ∧ l.out.count = min kept.length 64 ∧ l.out = roundedRows (kept.take 64) := by
  intro l kept
  by_cases none : kept = []
  · rw [if_pos none]
    have agrees := plain.lookup_of_not_kept exported lc opened rfl member none
    exact ⟨agrees.ret, gt_find_out_of_not_found lc opened agrees.ret⟩
  · rw [if_neg none]
    have agrees := plain.lookup_of_kept exported reads opened rfl none
    refine ⟨agrees.ret, ?_, agrees.out agrees.ret⟩
    rw [agrees.count]
    simp only [roundedRows, List.length_take, kept]
    omega

/-- A document with an image of one person, and one without. -/
def sampleDocument : CocoDocument where
  images := [⟨1, [97, DOT, 106, 112, 103], 100, 100⟩, ⟨2, [98, DOT, 106, 112, 103], 100, 100⟩]
  annotations := [⟨1, 1, ⟨10, 10, 50, 50⟩⟩, ⟨2, 18, ⟨10, 10, 50, 50⟩⟩]
  annotations_length := by decide

/-- Its annotation file: `a.bin,1,25.600,25.600,128.000,128.000`. -/
def sampleExport : Bytes :=
  [97, DOT, 98, 105, 110, COMMA, 49, COMMA, 50, 53, DOT, 54, 48, 48, COMMA, 50, 53, DOT,
    54, 48, 48, COMMA, 49, 50, 56, DOT, 48, 48, 48, COMMA, 49, 50, 56, DOT, 48, 48, 48, LF]

theorem transform_annotations_sample :
    transform_annotations .exact sampleDocument = some sampleExport := by
  decide +kernel

theorem sampleDocument_plain : sampleDocument.Plain where
  name := by
    intro im h
    simp only [sampleDocument, List.mem_cons, List.not_mem_nil, or_false] at h
    rcases h with rfl | rfl
    all_goals
      exact ⟨by decide, by decide, by decide, by decide, by decide, by rintro b ⟨⟩; rfl,
        by rintro b ⟨⟩; rfl⟩
  stems := by decide

/-- The round trip at the first image of the sample. -/
theorem gt_find_exported_sample :
    let l := gt_find_person_boxes_csv .decimal ⟨0, sampleExport⟩ [97, DOT, 98, 105, 110]
    let kept := sampleDocument.keptBoxes .exact ⟨1, [97, DOT, 106, 112, 103], 100, 100⟩
    if kept = [] then l.ret = -ENOENT ∧ l.out = .zero
    else l.ret = 0 ∧ l.out.count = min kept.length 64 ∧ l.out = roundedRows (kept.take 64) :=
  gt_find_exported Libc.decimal_readsDecimals .exact sampleDocument_plain
    (show ¬ (⟨0, sampleExport⟩ : OpenResult).ret < 0 by decide) transform_annotations_sample
    (by simp [sampleDocument])

end PeopleDetection
