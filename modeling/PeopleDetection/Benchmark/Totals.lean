import PeopleDetection.Benchmark.Orders
import PeopleDetection.Dataset.Images
import PeopleDetection.GroundTruth.Exported

/-!
# The totals of the benchmark

The annotation file and the directory of images come from the two dataset scripts. The
firmware counts the lines of the file as its total, and the directory entries that get
past the lookup as its progress. Over the exported files both are the number of images
with a kept person box.
-/

namespace PeopleDetection

open Library CocoDocument

/-- A document whose images can be exported: besides being plain, every name is a
`.jpg` name that is short enough for the path buffer of the firmware. -/
structure CocoDocument.Exportable (doc : CocoDocument) : Prop extends doc.Plain where
  jpg : ∀ im ∈ doc.images, JpgName im.file_name
  length : ∀ im ∈ doc.images, im.file_name.length ≤ 242

/-- A listing of the exported directory: an entry for every exported image, in some
order, with no failure of the file system. The card holds each file under its path. -/
structure Listing (doc : CocoDocument) (csv : OpenResult) (turns : List Turn) : Prop where
  names : (turns.map (·.name)).Perm (doc.images.map fun im => saved_name im.file_name)
  readdir : ∀ t ∈ turns, t.readdir = 0 ∧ t.isDir = false ∧ t.csv = csv
  files : ∀ t ∈ turns, ∀ im ∈ doc.images,
    let file := t.openImage (dir_path ++ SLASH :: saved_name im.file_name)
    0 ≤ file.ret ∧ NN_IN_LEN ≤ file.data.length

section Names

variable {doc : CocoDocument}

/-- The path of an exported image fits the buffer. -/
theorem full_path_saved_name (h : doc.Exportable) {im : CocoImage} (hm : im ∈ doc.images) :
    full_path dir_path (saved_name im.file_name) =
      dir_path ++ SLASH :: saved_name im.file_name := by
  have length := h.length im hm
  rw [(h.jpg im hm).eq] at length
  rw [saved_name_eq (h.jpg im hm), full_path, List.take_of_length_le]
  simp only [bin_name, dir_path, List.length_append, List.length_cons, List.length_nil]
    at length ⊢
  omega

variable {csv : OpenResult} {turns : List Turn}

theorem Listing.regular (h : doc.Exportable) (l : Listing doc csv turns) :
    ∀ t ∈ turns, t.Regular dir_path csv := by
  intro t ht
  obtain ⟨readdir, isDir, same⟩ := l.readdir t ht
  obtain ⟨im, hm, name⟩ := List.mem_map.mp
    (l.names.mem_iff.mp (List.mem_map_of_mem (f := (·.name)) ht))
  refine ⟨readdir, ?_, isDir, ?_, same⟩
  · rw [← name, saved_name_eq (h.jpg im hm)]
    exact bin_name_ne_nil _
  · rw [Turn.file, ← name, full_path_saved_name h hm]
    exact not_lt.mpr (l.files t ht im hm).1

end Names

variable {F : Type} [Zero F] [CFloat F]

/-- Over regular files, what the lookups find depends on the listed names only. -/
theorem countP_executed {path : Bytes} {csv : OpenResult} {turns : List Turn}
    (p : Bytes → Prop) [DecidablePred p] (q : Inference → Prop) [DecidablePred q]
    (same : ∀ i : Inference, i.csv = csv → (q i ↔ p i.name)) (buffer : Nat → UInt8)
    (regular : ∀ t ∈ turns, t.Regular path csv) :
    (executed path buffer turns).countP (fun i => q i) =
      (turns.map (·.name)).countP (fun n => p n) := by
  induction turns generalizing buffer with
  | nil => rfl
  | cons t turns ih =>
      have ht := regular t (by simp)
      have hq : q (t.inference path buffer) ↔ p t.name := same _ ht.csv
      rw [executed_cons_of_file ht.not_ends ht.isDir ht.opened, List.countP_cons,
        ih _ fun t' h' => regular t' (List.mem_cons_of_mem _ h'), List.map_cons,
        List.countP_cons]
      simp only [hq]

/-- A turn over a regular file goes on to the next one. -/
theorem BenchState.run_regular (lc : Libc F) (d : Detector F) {path : Bytes} {csv : OpenResult}
    (total : Int) (s : BenchState F) {turns : List Turn}
    (regular : ∀ t ∈ turns, t.Regular path csv) :
    ∃ s', Flow.run (turn lc d path total) s turns = .next s' := by
  apply Flow.run_ne_stop regular
  intro s t ht
  have step := turned lc d path total s t
  generalize turn lc d path total s t = r at step
  cases step with
  | ends h => exact absurd h ht.not_ends
  | failed _ _ failed => exact absurd failed ht.opened
  | listed => exact ⟨_, rfl⟩
  | skipped => exact ⟨_, rfl⟩
  | scored => exact ⟨_, rfl⟩

/-- The progress over regular files is the number of names that the lookup finds. -/
theorem BenchState.bench_done_finish (lc : Libc F) (d : Detector F) {path : Bytes}
    {csv : OpenResult} (total : Int) {s : BenchState F} {turns : List Turn}
    (regular : ∀ t ∈ turns, t.Regular path csv) (count : s.count = 0) (done : s.bench_done = 0) :
    (s.finish lc d path total turns).bench_done =
      (turns.map (·.name)).countP
        (fun n => ¬ (gt_find_person_boxes_csv lc csv n).ret < 0) := by
  have stats := congrArg Stats.count
    (stats_finish lc d path total s fun t ht => (regular t ht).isDir)
  rw [Stats.foldl_add] at stats
  simp only [BenchState.stats, count, zero_add, latencies, List.length_map,
    ← List.countP_eq_length_filter] at stats
  rw [finish_bench_done lc d path total turns (done.trans count.symm), stats,
    countP_executed (fun n => ¬ (gt_find_person_boxes_csv lc csv n).ret < 0) (·.Found lc)
      (fun i hi => by rw [Inference.Found, Inference.lookup, hi]) _ regular]

/-- The images with a line in the annotation file. -/
theorem CocoDocument.Plain.length_written {doc : CocoDocument} (plain : doc.Plain)
    (ar : FloatArith) :
    (doc.written ar).length = doc.images.countP (fun im => doc.keptBoxes ar im ≠ []) := by
  have nodup : doc.images.Nodup := List.Nodup.of_map _ plain.stems
  have same : ((doc.written ar).map Prod.fst).Perm
      (doc.images.filter fun im => doc.keptBoxes ar im ≠ []) := by
    rw [List.perm_ext_iff_of_nodup (nodup_written ar) (nodup.filter _)]
    intro im
    simp only [List.mem_map, Prod.exists, exists_and_right, exists_eq_right, List.mem_filter,
      decide_eq_true_eq]
    constructor
    · rintro ⟨kept, h⟩
      obtain ⟨rfl, nonempty⟩ := (mem_written ar).mp h
      exact ⟨mem_images_of_mem_written ar h, nonempty⟩
    · exact fun h => ⟨_, (mem_written ar).mpr ⟨rfl, h.2⟩⟩
  rw [List.countP_eq_length_filter, ← same.length_eq, List.length_map]

section Totals

variable {lc : Libc ℚ} {ar : FloatArith} {doc : CocoDocument} {csv : OpenResult}
  {turns : List Turn}

/-- The listed names that a predicate on lookups accepts, if it accepts exactly the images
with a line. -/
theorem countP_names (h : doc.Exportable) (l : Listing doc csv turns) (p : Bytes → Prop)
    [DecidablePred p]
    (same : ∀ im ∈ doc.images, p (bin_name im.file_name) ↔ doc.keptBoxes ar im ≠ []) :
    (turns.map (·.name)).countP (fun n => p n) = (doc.written ar).length := by
  rw [l.names.countP_eq, List.countP_map, h.toPlain.length_written]
  apply List.countP_congr
  intro im hm
  simp only [Function.comp_apply, decide_eq_true_eq, saved_name_eq (h.jpg im hm), same im hm]

/-- The lookup of an exported image succeeds, and finds boxes, exactly if it has a line. -/
theorem lookup_saved (reads : lc.ReadsDecimals) (h : doc.Exportable) (opened : ¬ csv.ret < 0)
    (exported : transform_annotations ar doc = some csv.data) {im : CocoImage}
    (hm : im ∈ doc.images) :
    (¬ (gt_find_person_boxes_csv lc csv (bin_name im.file_name)).ret < 0 ↔
      doc.keptBoxes ar im ≠ []) ∧
    (0 < (gt_find_person_boxes_csv lc csv (bin_name im.file_name)).out.count ↔
      doc.keptBoxes ar im ≠ []) := by
  by_cases none : doc.keptBoxes ar im = []
  · have agrees := h.toPlain.lookup_of_not_kept exported lc opened rfl hm none
    rw [agrees.ret, agrees.count]
    simp [none, GtBoxes.zero]
  · have agrees := h.toPlain.lookup_of_kept exported reads opened rfl none
    have := List.length_pos_iff.mpr none
    rw [agrees.ret, agrees.count]
    simp only [roundedRows, List.length_take]
    exact ⟨⟨fun _ => none, fun _ => Int.lt_irrefl 0⟩, ⟨fun _ => none, fun _ => by omega⟩⟩

/-- The dataset tools and the firmware agree. For every order of the directory the
progress never exceeds the total, and at the end both are the number of images with a kept
person box, all of which have been scored with their ground truth. -/
theorem totals_agree (reads : lc.ReadsDecimals) (d : Detector ℚ) (h : doc.Exportable)
    (opened : ¬ csv.ret < 0) (exported : transform_annotations ar doc = some csv.data)
    (some : ∃ im ∈ doc.images, doc.keptBoxes ar im ≠ []) (l : Listing doc csv turns)
    (sd_vbuf : Nat → UInt8) (detections : Nat → OdPpOutBuffer ℚ) :
    let total := (count_csv_lines csv).ret
    let start := ((BenchState.init sd_vbuf detections).log (count_csv_lines csv).trace).log
      [.opened .dir]
    let o := run_benchmark_on_sd_card lc d dir_path ⟨csv, 0, turns⟩ (.init sd_vbuf detections)
    (∀ front s, front <+: turns →
      Flow.run (BenchState.turn lc d dir_path total) start front = .next s →
        0 ≤ s.bench_done ∧ s.bench_done ≤ total) ∧
    o.report ≠ none ∧ o.state.bench_done = total ∧ o.state.img_with_gt = total ∧
      total = doc.images.countP (fun im => doc.keptBoxes ar im ≠ []) := by
  intro total start o
  have regular := l.regular h
  have total_eq : total = (doc.written ar).length := by
    rw [show total = _ from count_csv_lines_ret opened, h.toPlain.count_lf_csv exported]
  have found := countP_names h l (fun n => ¬ (gt_find_person_boxes_csv lc csv n).ret < 0)
    fun im hm => (lookup_saved reads h opened exported hm).1
  have boxes := countP_names h l (fun n => 0 < (gt_find_person_boxes_csv lc csv n).out.count)
    fun im hm => (lookup_saved reads h opened exported hm).2
  have nonempty : ¬ total ≤ 0 := by
    obtain ⟨im, hm, kept⟩ := some
    have pos : 0 < doc.images.countP (fun im => doc.keptBoxes ar im ≠ []) :=
      List.countP_pos_iff.mpr ⟨im, hm, decide_eq_true kept⟩
    rw [total_eq, h.toPlain.length_written]
    omega
  constructor
  · intro front s pre head
    have done := BenchState.bench_done_finish lc d total
      (fun t ht => regular t (pre.subset ht)) (show start.count = 0 from rfl) rfl
    rw [BenchState.finish, head, Flow.state_next] at done
    rw [done, total_eq, ← found]
    exact ⟨Int.natCast_nonneg _,
      Int.ofNat_le.mpr ((pre.sublist.map (·.name)).countP_le)⟩
  · obtain ⟨s, run⟩ := BenchState.run_regular lc d total start regular
    have done := BenchState.bench_done_finish lc d total regular
      (show start.count = 0 from rfl) rfl
    have gt := (BenchState.detection_counters lc d dir_path total start turns).1
    rw [countP_executed (fun n => 0 < (gt_find_person_boxes_csv lc csv n).out.count) (·.HasGt lc)
      (fun i hi => by rw [Inference.HasGt, Inference.lookup, hi]) _ regular, boxes] at gt
    rw [found] at done
    rw [BenchState.finish, run, Flow.state_next] at done gt
    have reported : o = _ := run_benchmark_of_next nonempty run
    rw [reported, total_eq]
    refine ⟨Option.some_ne_none _, done, ?_, ?_⟩
    · exact gt.trans (zero_add _)
    · rw [h.toPlain.length_written]

end Totals

/-- The turn of a black image under a name. -/
def blackTurn (name : Bytes) : Turn where
  readdir := 0
  name := name
  isDir := false
  openImage _ := ⟨0, List.replicate NN_IN_LEN 0⟩
  csv := ⟨0, sampleExport⟩
  t0 := 0
  t1 := 20

/-- The images of the sample document, `b.bin` before `a.bin`. -/
def sampleTurns : List Turn :=
  [blackTurn [98, DOT, 98, 105, 110], blackTurn [97, DOT, 98, 105, 110]]

theorem sampleDocument_exportable : sampleDocument.Exportable where
  toPlain := sampleDocument_plain
  jpg im h := by
    simp only [sampleDocument, List.mem_cons, List.not_mem_nil, or_false] at h
    rcases h with rfl | rfl <;> constructor <;> decide
  length := by decide

theorem sampleTurns_listing : Listing sampleDocument ⟨0, sampleExport⟩ sampleTurns where
  names := by decide
  readdir t h := by
    simp only [sampleTurns, List.mem_cons, List.not_mem_nil, or_false] at h
    rcases h with rfl | rfl <;> exact ⟨rfl, rfl, rfl⟩
  files t h im _ := by
    have image : ∀ name path, (blackTurn name).openImage path =
        ⟨0, List.replicate NN_IN_LEN 0⟩ := fun _ _ => rfl
    simp only [sampleTurns, List.mem_cons, List.not_mem_nil, or_false] at h
    rcases h with rfl | rfl
    all_goals
      simp only [image, List.length_replicate]
      exact ⟨le_refl _, le_refl _⟩

/-- The totals of the sample document. -/
theorem totals_agree_sample :
    let total := (count_csv_lines ⟨0, sampleExport⟩).ret
    let start := ((BenchState.init (fun _ => 0) fun _ => ⟨0, 0, 0, 0, 0, 0⟩).log
      (count_csv_lines ⟨0, sampleExport⟩).trace).log [.opened .dir]
    let o := run_benchmark_on_sd_card .decimal sampleDetector dir_path
      ⟨⟨0, sampleExport⟩, 0, sampleTurns⟩ (.init (fun _ => 0) fun _ => ⟨0, 0, 0, 0, 0, 0⟩)
    (∀ front s, front <+: sampleTurns →
      Flow.run (BenchState.turn .decimal sampleDetector dir_path total) start front = .next s →
        0 ≤ s.bench_done ∧ s.bench_done ≤ total) ∧
    o.report ≠ none ∧ o.state.bench_done = total ∧ o.state.img_with_gt = total ∧
      total =
        sampleDocument.images.countP (fun im => sampleDocument.keptBoxes .exact im ≠ []) :=
  totals_agree Libc.decimal_readsDecimals sampleDetector sampleDocument_exportable
    (show ¬ (0 : Int) < 0 by decide) transform_annotations_sample
    ⟨⟨1, [97, DOT, 106, 112, 103], 100, 100⟩, by simp [sampleDocument], by decide +kernel⟩
    sampleTurns_listing (fun _ => 0) fun _ => ⟨0, 0, 0, 0, 0, 0⟩

end PeopleDetection
