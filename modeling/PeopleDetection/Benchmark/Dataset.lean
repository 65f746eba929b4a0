import PeopleDetection.Benchmark.Totals

/-!
# The score of a dataset

From end to end: the scripts export a document and its images, and the firmware runs the
benchmark over the card. The report is a statement about the document and the detector
alone. The files in between, their order and the buffers leave no trace in it.
-/

namespace PeopleDetection

open Library CocoDocument

/-! ## The score -/

section Score

variable (ar : FloatArith) (doc : CocoDocument) (d : Detector ℚ) (picture : CocoImage → Nat → UInt8)

/-- An annotated box, as far as three decimals tell. -/
def BBox.corners3 (b : BBox) : BoxXyxy ℚ :=
  xywh_to_xyxy (round3 b.x) (round3 b.y) (round3 b.w) (round3 b.h)

/-- The image has a person. -/
def Annotated (im : CocoImage) : Prop := doc.keptBoxes ar im ≠ []

/-- The image has a person, and the detector finds one. -/
def Detected (im : CocoImage) : Prop :=
  doc.keptBoxes ar im ≠ [] ∧ d.detect (picture im) ≠ []

/-- The detector finds one of the first 64 persons. -/
def Recognized (im : CocoImage) : Prop :=
  ∃ b ∈ (doc.keptBoxes ar im).take 64, ∃ r ∈ d.detect (picture im),
    overlaps b.corners3 (dbox_to_xyxy (model_detection_to_box r))

instance : DecidablePred (Annotated ar doc) := fun _ => inferInstanceAs (Decidable (_ ≠ _))
instance : DecidablePred (Recognized ar doc d picture) := fun _ =>
  inferInstanceAs (Decidable (∃ b ∈ _, ∃ r ∈ _, overlaps _ _))
instance : DecidablePred (Detected ar doc d picture) := fun _ =>
  inferInstanceAs (Decidable (_ ≠ _ ∧ _ ≠ _))

end Score

/-! ## The images of a listing -/

section Images

variable {lc : Libc ℚ} {ar : FloatArith} {doc : CocoDocument} {csv : OpenResult}
variable {turns : List Turn} {im : CocoImage} {i : Inference}

/-- Among the inferences of a run over the exported files, those of a kind are as many as the
images that they are made on. -/
theorem Listing.countP_history (h : doc.Exportable) (l : Listing doc csv turns)
    (sd_vbuf : Nat → UInt8) (q : Inference → Prop) [DecidablePred q] (P : CocoImage → Prop)
    [DecidablePred P]
    (same : ∀ t ∈ turns, ∀ im ∈ doc.images, t.name = bin_name im.file_name →
      (q (t.inference dir_path sd_vbuf) ↔ P im)) :
    (executed dir_path sd_vbuf turns).countP (fun i => q i) =
      doc.images.countP (fun im => P im) := by
  have regular := l.regular h
  -- a listed name belongs to one image
  have image {im : CocoImage} (hm : im ∈ doc.images) :
      saved_name im.file_name = bin_name im.file_name := saved_name_eq (h.jpg im hm)
  have full : ∀ t ∈ turns, (t.benchFile dir_path).Full := by
    intro t ht
    obtain ⟨im, hm, name⟩ := List.mem_map.mp
      (l.names.mem_iff.mp (List.mem_map_of_mem (f := (·.name)) ht))
    rw [BenchFile.Full, Turn.benchFile, Turn.file, ← name, full_path_saved_name h hm]
    exact (l.files t ht im hm).2
  let named (name : Bytes) : Prop := ∃ im ∈ doc.images, bin_name im.file_name = name ∧ P im
  have turnwise : ∀ t ∈ turns, q (t.inference dir_path sd_vbuf) ↔ named t.name := by
    intro t ht
    obtain ⟨im, hm, name⟩ := List.mem_map.mp
      (l.names.mem_iff.mp (List.mem_map_of_mem (f := (·.name)) ht))
    rw [image hm] at name
    rw [same t ht im hm name.symm]
    constructor
    · exact fun hP => ⟨im, hm, name, hP⟩
    · rintro ⟨im', hm', name', hP⟩
      rwa [h.toPlain.eq_of_bin_name_eq hm hm' (name.trans name'.symm)]
  have imagewise : ∀ im ∈ doc.images, named (saved_name im.file_name) ↔ P im := by
    intro im hm
    rw [image hm]
    constructor
    · rintro ⟨im', hm', name', hP⟩
      rwa [← h.toPlain.eq_of_bin_name_eq hm' hm name']
    · exact fun hP => ⟨im, hm, rfl, hP⟩
  calc
    (executed dir_path sd_vbuf turns).countP (fun i => q i)
      = turns.countP (fun t => q ((t.benchFile dir_path).inference csv sd_vbuf)) := by
        rw [executed_of_full sd_vbuf (fun _ _ => rfl) regular full, List.map_map,
          List.countP_map]
        rfl
    _ = turns.countP (fun t => named t.name) := by
        apply List.countP_congr
        intro t ht
        rw [← (regular t ht).inference_eq, decide_eq_true_eq, decide_eq_true_eq]
        exact turnwise t ht
    _ = (turns.map (·.name)).countP (fun name => named name) := by
        rw [List.countP_map]
        rfl
    _ = (doc.images.map fun im => saved_name im.file_name).countP (fun name => named name) :=
        l.names.countP_eq _
    _ = doc.images.countP (fun im => P im) := by
        rw [List.countP_map]
        apply List.countP_congr
        intro im hm
        rw [Function.comp_apply, decide_eq_true_eq, decide_eq_true_eq]
        exact imagewise im hm

/-- What the turn of an image has in the buffer. -/
theorem inference_image (h : doc.Exportable) (sd_vbuf : Nat → UInt8) {t : Turn}
    (member : im ∈ doc.images) (name : t.name = bin_name im.file_name) :
    (t.inference dir_path sd_vbuf).image =
      fill sd_vbuf (t.openImage (dir_path ++ SLASH :: saved_name im.file_name)).data := by
  change fill sd_vbuf (t.file dir_path).data = _
  rw [Turn.file, name, ← saved_name_eq (h.jpg im member), full_path_saved_name h member]

theorem inference_lookup (lc : Libc ℚ) (sd_vbuf : Nat → UInt8) {t : Turn}
    (name : t.name = bin_name im.file_name) (file : t.csv = csv) :
    (t.inference dir_path sd_vbuf).lookup lc =
      gt_find_person_boxes_csv lc csv (bin_name im.file_name) := by
  change gt_find_person_boxes_csv lc t.csv t.name = _
  rw [file, name]

/-- A row of the struct holding boxes. -/
theorem corners_roundedRows {boxes : List BBox} {gi : Nat} (inside : gi < boxes.length) :
    (roundedRows boxes).corners gi = boxes[gi].corners3 := by
  simp [GtBoxes.corners, roundedRows, BBox.corners3, inside]

/-- The firmware recognizes a person in an inference on an image. -/
theorem matched_iff (reads : lc.ReadsDecimals) (h : doc.Exportable) (opened : ¬ csv.ret < 0)
    (exported : transform_annotations ar doc = some csv.data) (d : Detector ℚ)
    {picture : CocoImage → Nat → UInt8} (member : im ∈ doc.images)
    (name : i.name = bin_name im.file_name) (file : i.csv = csv) (image : i.image = picture im) :
    i.Matched lc d ↔ Recognized ar doc d picture im := by
  rw [Inference.Matched, Inference.lookup, Inference.preds, name, file, image, Recognized]
  by_cases none : doc.keptBoxes ar im = []
  · have agrees := h.toPlain.lookup_of_not_kept exported lc opened rfl member none
    rw [agrees.count, none]
    simp [GtBoxes.zero]
  · have agrees := h.toPlain.lookup_of_kept exported reads opened rfl none
    have count : (roundedRows ((doc.keptBoxes ar im).take 64)).count.toNat =
      ((doc.keptBoxes ar im).take 64).length := Int.toNat_natCast _
    rw [agrees.out agrees.ret, count]
    constructor
    · rintro ⟨gi, inside, p, hp, hit⟩
      obtain ⟨r, hr, rfl⟩ := List.mem_map.mp hp
      rw [corners_roundedRows inside] at hit
      exact ⟨_, List.getElem_mem inside, r, hr, hit⟩
    · rintro ⟨b, hb, r, hr, hit⟩
      obtain ⟨gi, inside, rfl⟩ := List.getElem_of_mem hb
      exact ⟨gi, inside, _, List.mem_map_of_mem hr, by rwa [corners_roundedRows inside]⟩

end Images

/-! ## The report -/

section Report

variable {lc : Libc ℚ} {ar : FloatArith} {doc : CocoDocument} {csv : OpenResult}
variable {turns : List Turn}

/-- What the benchmark reports about an exported dataset: of the images with a person, and of
those on which the detector also finds one, how many are recognized. -/
theorem dataset_report (reads : lc.ReadsDecimals) (d : Detector ℚ) (h : doc.Exportable)
    (opened : ¬ csv.ret < 0) (exported : transform_annotations ar doc = some csv.data)
    (some : ∃ im ∈ doc.images, Annotated ar doc im) (l : Listing doc csv turns)
    (pixels : CocoImage → Bytes)
    (stored : ∀ t ∈ turns, ∀ im ∈ doc.images,
      (t.openImage (dir_path ++ SLASH :: saved_name im.file_name)).data = pixels im)
    (sd_vbuf : Nat → UInt8) (detections : Nat → OdPpOutBuffer ℚ) :
    let o := run_benchmark_on_sd_card lc d dir_path ⟨csv, 0, turns⟩ (.init sd_vbuf detections)
    let picture im := fill sd_vbuf (pixels im)
    let annotated := doc.images.countP (fun im => Annotated ar doc im)
    let detected := doc.images.countP (fun im => Detected ar doc d picture im)
    let recognized := doc.images.countP (fun im => Recognized ar doc d picture im)
    o.state.img_with_gt = annotated ∧ o.state.img_with_pred = detected ∧
      o.state.gt_matched = recognized ∧ o.state.pred_matched = recognized ∧
      0 < annotated ∧ o.report = .some o.state.report ∧
      (turns.length ≤ 65536 →
        BenchState.RatioLine o.state.report.recall_ratio recognized annotated ∧
        BenchState.RatioLine o.state.report.prec_ratio recognized detected) := by
  intro o picture annotated detected recognized
  have regular := l.regular h
  let start : BenchState ℚ :=
    ((BenchState.init sd_vbuf detections).log (count_csv_lines csv).trace).log [.opened .dir]
  have imageOf {t : Turn} (ht : t ∈ turns) {im : CocoImage} (hm : im ∈ doc.images)
      (name : t.name = bin_name im.file_name) :
      (t.inference dir_path sd_vbuf).image = picture im := by
    rw [inference_image h sd_vbuf hm name, stored t ht im hm]
  have hasGt := l.countP_history h sd_vbuf (·.HasGt lc) (Annotated ar doc)
    fun t ht im hm name => by
      rw [Inference.HasGt, inference_lookup lc sd_vbuf name (regular t ht).csv]
      exact (lookup_saved reads h opened exported hm).2
  have hasPred := l.countP_history h sd_vbuf (fun i => i.Found lc ∧ i.HasPred d)
    (Detected ar doc d picture) fun t ht im hm name => by
      rw [Inference.Found, inference_lookup lc sd_vbuf name (regular t ht).csv,
        (lookup_saved reads h opened exported hm).1, Inference.HasPred, Inference.preds,
        imageOf ht hm name]
      exact and_congr_right' (not_congr List.map_eq_nil_iff)
  have matched := l.countP_history h sd_vbuf (·.Matched lc d) (Recognized ar doc d picture)
    fun t ht im hm name => matched_iff reads h opened exported d hm name (regular t ht).csv
      (imageOf ht hm name)
  have people : 0 < annotated := by
    obtain ⟨im, hm, kept⟩ := some
    exact List.countP_pos_iff.mpr ⟨im, hm, decide_eq_true kept⟩
  have lines : ¬ (count_csv_lines csv).ret ≤ 0 := by
    rw [count_csv_lines_ret opened, h.toPlain.count_lf_csv exported, h.toPlain.length_written,
      not_le]
    exact Int.natCast_pos.mpr people
  obtain ⟨s, run⟩ := BenchState.run_regular lc d (count_csv_lines csv).ret start regular
  obtain ⟨gt, pred, matchGt, matchPred⟩ :=
    BenchState.detection_counters lc d dir_path (count_csv_lines csv).ret start turns
  rw [BenchState.finish, run, Flow.state_next] at gt pred matchGt matchPred
  rw [show start.img_with_gt = 0 from rfl, zero_add] at gt
  rw [show start.img_with_pred = 0 from rfl, zero_add] at pred
  rw [show start.gt_matched = 0 from rfl, zero_add] at matchGt
  rw [show start.pred_matched = 0 from rfl, zero_add] at matchPred
  rw [show start.sd_vbuf = sd_vbuf from rfl] at gt pred matchGt matchPred
  have reported : o = _ := run_benchmark_of_next lines run
  have ratios (fat : turns.length ≤ 65536) := BenchState.ratioLine_of_counts
    ((length_executed_le dir_path sd_vbuf turns).trans fat) gt pred matchGt matchPred
  rw [hasGt] at gt ratios
  rw [hasPred] at pred ratios
  rw [matched] at matchGt matchPred ratios
  rw [reported]
  exact ⟨gt, pred, matchGt, matchPred, people, rfl, ratios⟩

/-- The report about the sample document and two black images. -/
theorem dataset_report_sample :
    let o := run_benchmark_on_sd_card .decimal sampleDetector dir_path
      ⟨⟨0, sampleExport⟩, 0, sampleTurns⟩ (.init (fun _ => 0) fun _ => ⟨0, 0, 0, 0, 0, 0⟩)
    let picture (_ : CocoImage) := fill (fun _ => 0) (List.replicate NN_IN_LEN 0)
    let annotated := sampleDocument.images.countP (fun im => Annotated .exact sampleDocument im)
    let detected := sampleDocument.images.countP
      (fun im => Detected .exact sampleDocument sampleDetector picture im)
    let recognized := sampleDocument.images.countP
      (fun im => Recognized .exact sampleDocument sampleDetector picture im)
    o.state.img_with_gt = annotated ∧ o.state.img_with_pred = detected ∧
      o.state.gt_matched = recognized ∧ o.state.pred_matched = recognized ∧
      0 < annotated ∧ o.report = .some o.state.report ∧
      BenchState.RatioLine o.state.report.recall_ratio recognized annotated ∧
      BenchState.RatioLine o.state.report.prec_ratio recognized detected := by
  obtain ⟨gt, pred, matchGt, matchPred, people, report, ratios⟩ :=
    dataset_report Libc.decimal_readsDecimals sampleDetector sampleDocument_exportable
      (show ¬ (0 : Int) < 0 by decide) transform_annotations_sample
      ⟨⟨1, [97, DOT, 106, 112, 103], 100, 100⟩, by simp [sampleDocument], by decide +kernel⟩
      sampleTurns_listing (fun _ => List.replicate NN_IN_LEN 0)
      (fun t h im _ => by
        simp only [sampleTurns, List.mem_cons, List.not_mem_nil, or_false] at h
        rcases h with rfl | rfl <;> rfl)
      (fun _ => 0) fun _ => ⟨0, 0, 0, 0, 0, 0⟩
  exact ⟨gt, pred, matchGt, matchPred, people, report, ratios (by decide)⟩

end Report
end PeopleDetection
