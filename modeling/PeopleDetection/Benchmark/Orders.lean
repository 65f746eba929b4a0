import Mathlib.Data.List.Perm.Basic
import PeopleDetection.Benchmark.Accounting
import PeopleDetection.GroundTruth.OwnRecord

/-!
# The order of the directory

Two runs over the same files in different orders. The image buffer is shared by all
files, and a file shorter than an image leaves the end of the previous image in place;
only a disabled assertion would notice. Among complete files no run sees anything of
another file, so the order does not matter. With a short file it does.
-/

namespace PeopleDetection

open Library

/-! ## Files and their turns -/

/-- A regular file of the directory, with the time that its inference takes. -/
structure BenchFile where
  name : Bytes
  data : Bytes
  elapsed : UInt32

/-- The file has the bytes of a whole image. -/
def BenchFile.Full (f : BenchFile) : Prop := NN_IN_LEN ≤ f.data.length

/-- What a turn presents to the program. -/
def Turn.benchFile (path : Bytes) (t : Turn) : BenchFile where
  name := t.name
  data := (t.file path).data
  elapsed := t.t1 - t.t0

/-- A turn over a regular file in which all opens succeed. -/
structure Turn.Regular (path : Bytes) (csv : OpenResult) (t : Turn) : Prop where
  readdir : t.readdir = 0
  name : t.name ≠ []
  isDir : t.isDir = false
  opened : ¬ (t.file path).ret < 0
  csv : t.csv = csv

/-- The turns of a run over the given files, in some order. -/
structure Presents (path : Bytes) (csv : OpenResult) (files : List BenchFile)
    (turns : List Turn) : Prop where
  regular : ∀ t ∈ turns, t.Regular path csv
  perm : (turns.map (·.benchFile path)).Perm files

/-- The inference on a file, if the buffer holds `buffer` before. -/
def BenchFile.inference (csv : OpenResult) (buffer : Nat → UInt8) (f : BenchFile) :
    Inference where
  name := f.name
  image := fill buffer f.data
  csv := csv
  latency := i32 f.elapsed.toNat

theorem Turn.Regular.not_ends {path : Bytes} {csv : OpenResult} {t : Turn}
    (h : t.Regular path csv) : ¬ t.Ends := by
  rintro (hr | hn)
  · exact hr h.readdir
  · exact h.name hn

theorem Turn.Regular.inference_eq {path : Bytes} {csv : OpenResult} {t : Turn}
    (h : t.Regular path csv) (buffer : Nat → UInt8) :
    t.inference path buffer = (t.benchFile path).inference csv buffer := by
  simp only [Turn.inference, BenchFile.inference, Turn.benchFile, Turn.latency, h.csv]

section Buffer

variable {buffer buffer' : Nat → UInt8} {data : Bytes}

/-- The buffers differ only within the image. -/
def SameBeyond (buffer buffer' : Nat → UInt8) : Prop :=
  ∀ i, NN_IN_LEN ≤ i → buffer i = buffer' i

theorem fill_sameBeyond : SameBeyond (fill buffer data) buffer := by
  intro i hi
  rw [fill, List.getElem?_eq_none (by rw [List.length_take]; omega), Option.getD_none]

/-- A complete image replaces whatever was in the buffer. -/
theorem fill_eq_of_full (full : NN_IN_LEN ≤ data.length) (same : SameBeyond buffer buffer') :
    fill buffer data = fill buffer' data := by
  funext i
  simp only [fill]
  by_cases hi : i < NN_IN_LEN
  · rw [List.getElem?_eq_getElem (by rw [List.length_take]; omega), Option.getD_some,
      Option.getD_some]
  · rw [List.getElem?_eq_none (by rw [List.length_take]; omega), Option.getD_none,
      Option.getD_none]
    exact same i (not_lt.mp hi)

/-- Beyond the end of a short file the buffer keeps its bytes. -/
theorem fill_of_length_le {i : Nat} (short : data.length ≤ i) : fill buffer data i = buffer i := by
  rw [fill, List.getElem?_eq_none (by rw [List.length_take]; omega), Option.getD_none]

end Buffer

/-- Over complete files, the history is one inference for each file, none of which sees
another. -/
theorem executed_of_full {path : Bytes} {csv : OpenResult} {turns : List Turn}
    {start : Nat → UInt8} (buffer : Nat → UInt8) (same : SameBeyond buffer start)
    (regular : ∀ t ∈ turns, t.Regular path csv)
    (full : ∀ t ∈ turns, (t.benchFile path).Full) :
    executed path buffer turns =
      (turns.map (·.benchFile path)).map (BenchFile.inference csv start) := by
  induction turns generalizing buffer with
  | nil => rfl
  | cons t turns ih =>
      have ht := regular t (by simp)
      rw [executed_cons_of_file ht.not_ends ht.isDir ht.opened,
        ih (t.inference path buffer).image
          (fun i hi => (fill_sameBeyond i hi).trans (same i hi))
          (fun t' h' => regular t' (List.mem_cons_of_mem _ h'))
          (fun t' h' => full t' (List.mem_cons_of_mem _ h')),
        ht.inference_eq, List.map_cons, List.map_cons]
      congr 1
      simp only [BenchFile.inference]
      rw [fill_eq_of_full (full t (by simp)) same]

/-! ## The counters of two runs -/

variable {F : Type} [Zero F] [CFloat F]

/-- The counters that a run leaves behind. -/
structure Counters where
  bench_done : Int
  img_with_gt : Int
  img_with_pred : Int
  gt_matched : Int
  pred_matched : Int
  bench_samples : Int
  bench_errors : Int
  bench_sum_ms : Int
  bench_min_ms : Int
  bench_max_ms : Int
  deriving DecidableEq

def BenchState.counters (s : BenchState F) : Counters where
  bench_done := s.bench_done
  img_with_gt := s.img_with_gt
  img_with_pred := s.img_with_pred
  gt_matched := s.gt_matched
  pred_matched := s.pred_matched
  bench_samples := s.bench_samples
  bench_errors := s.bench_errors
  bench_sum_ms := s.bench_sum_ms
  bench_min_ms := s.bench_min_ms
  bench_max_ms := s.bench_max_ms

/-- The counters after a run over the given turns in which the directory opens. -/
def countersOf (lc : Libc F) (d : Detector F) (path : Bytes) (csv : OpenResult)
    (turns : List Turn) (sd_vbuf : Nat → UInt8) (detections : Nat → OdPpOutBuffer F) :
    Counters :=
  (run_benchmark_on_sd_card lc d path ⟨csv, 0, turns⟩ (.init sd_vbuf detections)).state.counters

/-- The progress counter is the number of turns that reached the bottom of the loop. -/
theorem BenchState.finish_bench_done (lc : Libc F) (d : Detector F) (path : Bytes) (total : Int)
    {s : BenchState F} (turns : List Turn) (h : s.bench_done = s.count) :
    (s.finish lc d path total turns).bench_done = (s.finish lc d path total turns).count := by
  have tally : ∀ s : BenchState F, (s.tally total).bench_done = (s.tally total).count :=
    fun s => by rw [tally_eq]
  induction turns generalizing s with
  | nil => exact h
  | cons t turns ih =>
      have step := turned lc d path total s t
      generalize hr : BenchState.turn lc d path total s t = r at step
      cases step with
      | ends =>
          rw [finish, Flow.run_cons_of_stop hr]
          exact h
      | failed =>
          rw [finish, Flow.run_cons_of_stop hr]
          exact h
      | listed =>
          rw [finish, Flow.run_cons_of_next hr, ← finish]
          exact ih (tally _)
      | skipped =>
          rw [finish, Flow.run_cons_of_next hr, ← finish]
          exact ih h
      | scored =>
          rw [finish, Flow.run_cons_of_next hr, ← finish]
          exact ih (tally _)

/-- The counters as a function of the history. -/
def Counters.ofHistory (lc : Libc F) (d : Detector F) (history : List Inference) : Counters :=
  let st := (latencies lc history).foldl Stats.add ⟨0, 0, 0, 0, INT_MAX, 0⟩
  { bench_done := st.count
    img_with_gt := history.countP (·.HasGt lc)
    img_with_pred := history.countP (fun i => i.Found lc ∧ i.HasPred d)
    gt_matched := history.countP (·.Matched lc d)
    pred_matched := history.countP (·.Matched lc d)
    bench_samples := st.samples
    bench_errors := st.errors
    bench_sum_ms := st.sum
    bench_min_ms := st.min
    bench_max_ms := st.max }

/-- The order of the history does not matter. -/
theorem Counters.ofHistory_perm (lc : Libc F) (d : Detector F) {history history' : List Inference}
    (h : history.Perm history') : ofHistory lc d history = ofHistory lc d history' := by
  have same : (latencies lc history).Perm (latencies lc history') := (h.filter _).map _
  simp only [ofHistory, Stats.foldl_add_perm _ same, h.countP_eq]

/-- The counters of a run over files are determined by its history. -/
theorem countersOf_eq (lc : Libc F) (d : Detector F) (path : Bytes) (csv : OpenResult)
    {turns : List Turn} (sd_vbuf : Nat → UInt8) (detections : Nat → OdPpOutBuffer F)
    (files : ∀ t ∈ turns, t.isDir = false) :
    countersOf lc d path csv turns sd_vbuf detections =
      if (count_csv_lines csv).ret ≤ 0 then Counters.ofHistory lc d []
      else Counters.ofHistory lc d (executed path sd_vbuf turns) := by
  by_cases lines : (count_csv_lines csv).ret ≤ 0
  · rw [if_pos lines, countersOf, run_benchmark_on_sd_card]
    simp only [if_pos lines]
    rfl
  · rw [if_neg lines]
    let start : BenchState F :=
      ((BenchState.init sd_vbuf detections).log (count_csv_lines csv).trace).log [.opened .dir]
    have state : countersOf lc d path csv turns sd_vbuf detections =
        (start.finish lc d path (count_csv_lines csv).ret turns).counters := by
      rw [countersOf, run_benchmark_on_sd_card]
      simp only [if_neg lines, ne_eq, not_true_eq_false, if_false, BenchState.finish]
      cases Flow.run (BenchState.turn lc d path (count_csv_lines csv).ret) start turns with
      | next s => rfl
      | stop e s => cases e <;> rfl
    have done := BenchState.finish_bench_done lc d path (count_csv_lines csv).ret turns
      (show start.bench_done = start.count from rfl)
    have stats := BenchState.stats_finish lc d path (count_csv_lines csv).ret start files
    have detected := BenchState.detection_counters lc d path (count_csv_lines csv).ret start turns
    rw [show start.stats = ⟨0, 0, 0, 0, INT_MAX, 0⟩ from rfl,
      show start.sd_vbuf = sd_vbuf from rfl] at stats
    simp only [show start.img_with_gt = 0 from rfl, show start.img_with_pred = 0 from rfl,
      show start.gt_matched = 0 from rfl, show start.pred_matched = 0 from rfl,
      show start.sd_vbuf = sd_vbuf from rfl, zero_add] at detected
    obtain ⟨gt, pred, matchGt, matchPred⟩ := detected
    rw [state, BenchState.counters, Counters.ofHistory, ← stats, gt, pred, matchGt, matchPred, done]
    rfl

/-! ## Complete and short files -/

/-- Complete files can be listed in any order. -/
theorem countersOf_perm (lc : Libc F) (d : Detector F) {path : Bytes} {csv : OpenResult}
    {files : List BenchFile} {turns turns' : List Turn} (sd_vbuf : Nat → UInt8)
    (detections : Nat → OdPpOutBuffer F) (full : ∀ f ∈ files, f.Full)
    (h : Presents path csv files turns) (h' : Presents path csv files turns') :
    countersOf lc d path csv turns sd_vbuf detections =
      countersOf lc d path csv turns' sd_vbuf detections := by
  have all : ∀ {ts}, Presents path csv files ts → ∀ t ∈ ts, (t.benchFile path).Full :=
    fun hts t ht => full _ (hts.perm.mem_iff.mp (List.mem_map_of_mem ht))
  rw [countersOf_eq lc d path csv sd_vbuf detections fun t ht => (h.regular t ht).isDir,
    countersOf_eq lc d path csv sd_vbuf detections fun t ht => (h'.regular t ht).isDir,
    executed_of_full sd_vbuf (fun i _ => rfl) h.regular (all h),
    executed_of_full sd_vbuf (fun i _ => rfl) h'.regular (all h')]
  rw [Counters.ofHistory_perm lc d ((h.perm.trans h'.perm.symm).map _)]

/-- A turn that presents a file. -/
def BenchFile.turn (csv : OpenResult) (f : BenchFile) : Turn where
  readdir := 0
  name := f.name
  isDir := false
  openImage _ := ⟨0, f.data⟩
  csv := csv
  t0 := 0
  t1 := f.elapsed

theorem BenchFile.turn_regular {path : Bytes} {csv : OpenResult} {f : BenchFile}
    (named : f.name ≠ []) : (f.turn csv).Regular path csv :=
  ⟨rfl, named, rfl, Int.lt_irrefl 0, rfl⟩

theorem BenchFile.benchFile_turn {path : Bytes} {csv : OpenResult} (f : BenchFile) :
    (f.turn csv).benchFile path = f := by
  simp [Turn.benchFile, Turn.file, BenchFile.turn]

theorem presents_turns {path : Bytes} {csv : OpenResult} {files order : List BenchFile}
    (named : ∀ f ∈ order, f.name ≠ []) (perm : order.Perm files) :
    Presents path csv files (order.map (·.turn csv)) where
  regular t ht := by
    obtain ⟨f, hf, rfl⟩ := List.mem_map.mp ht
    exact BenchFile.turn_regular (named f hf)
  perm := by
    simpa [Function.comp_def, BenchFile.benchFile_turn] using perm

theorem executed_turn_cons {path : Bytes} {csv : OpenResult} {f : BenchFile}
    (named : f.name ≠ []) (buffer : Nat → UInt8) (turns : List Turn) :
    executed path buffer (f.turn csv :: turns) =
      f.inference csv buffer :: executed path (fill buffer f.data) turns := by
  have regular : (f.turn csv).Regular path csv := BenchFile.turn_regular named
  rw [executed_cons_of_file regular.not_ends regular.isDir regular.opened,
    regular.inference_eq, BenchFile.benchFile_turn]
  rfl

/-- A detector that finds a person if byte `i` of the image has the value `b`. -/
def byteDetector (i : Nat) (b : UInt8) : Detector F where
  detect image := if image i = b then [⟨0, 0, 0, 0, 0, 0⟩] else []
  length_le image := by split <;> simp

theorem hasPred_byteDetector {i : Nat} {b : UInt8} {inf : Inference} :
    inf.HasPred (byteDetector (F := F) i b) ↔ inf.image i = b := by
  simp only [Inference.hasPred_iff, Inference.preds, byteDetector]
  split <;> simp [*]

/-- A file that can be added to any directory of complete files without making the order
of the directory matter, whatever the annotation file and the detector. -/
def Harmless (lc : Libc F) (path : Bytes) (sd_vbuf : Nat → UInt8)
    (detections : Nat → OdPpOutBuffer F) (f : BenchFile) : Prop :=
  ∀ (d : Detector F) (csv : OpenResult) (others : List BenchFile) (turns turns' : List Turn),
    (∀ g ∈ others, g.Full) → ((f :: others).map (·.name)).Nodup →
    Presents path csv (f :: others) turns → Presents path csv (f :: others) turns' →
      countersOf lc d path csv turns sd_vbuf detections =
        countersOf lc d path csv turns' sd_vbuf detections

/-- A short file next to a complete one shows what the file before it has left behind. -/
theorem Harmless.full {lc : Libc F} {path : Bytes} {sd_vbuf : Nat → UInt8}
    {detections : Nat → OdPpOutBuffer F} {f : BenchFile} (plain : PlainName f.name)
    (named : f.name ≠ []) (same : Harmless lc path sd_vbuf detections f) : f.Full := by
  by_contra short
  have hi : f.data.length < NN_IN_LEN := not_le.mp short
  -- A complete file with another name, and another byte where `f` ends.
  let g : BenchFile :=
    ⟨f.name ++ [97], List.replicate NN_IN_LEN (sd_vbuf f.data.length + 1), 0⟩
  have other : g.name ≠ f.name := by simp [g]
  have named' : g.name ≠ [] := by simp [g]
  have full : g.Full := by simp only [g, BenchFile.Full, List.length_replicate, le_refl]
  let csv : OpenResult := ⟨0, ownRecord f.name ++ [LF]⟩
  let d : Detector F := byteDetector f.data.length (sd_vbuf f.data.length)
  have both : ∀ h ∈ [f, g], h.name ≠ [] := by simp [named, named']
  have swapped : ∀ h ∈ [g, f], h.name ≠ [] := by simp [named, named']
  have counters := same d csv [g] _ _ (by simpa using full) (by simpa using other.symm)
    (presents_turns both (List.Perm.refl _)) (presents_turns swapped (List.Perm.swap _ _ _))
  have lines : ¬ (count_csv_lines csv).ret ≤ 0 :=
    not_le.mpr (count_csv_lines_ownRecord f.name)
  have found : ∀ buffer, (f.inference csv buffer).Found lc :=
    fun _ => found_ownRecord lc plain named
  have missing : ∀ buffer, ¬ (g.inference csv buffer).Found lc :=
    fun _ h => h (missing_ownRecord lc plain named other)
  rw [countersOf_eq lc d path csv sd_vbuf detections (by simp [BenchFile.turn]),
    countersOf_eq lc d path csv sd_vbuf detections (by simp [BenchFile.turn]),
    if_neg lines, if_neg lines] at counters
  have pred : (executed path sd_vbuf ([f, g].map (·.turn csv))).countP
        (fun i => i.Found lc ∧ i.HasPred d) =
      (executed path sd_vbuf ([g, f].map (·.turn csv))).countP
        (fun i => i.Found lc ∧ i.HasPred d) :=
    Int.ofNat_inj.mp (congrArg Counters.img_with_pred counters)
  have before : (f.inference csv sd_vbuf).HasPred d :=
    hasPred_byteDetector.mpr (fill_of_length_le (le_refl _))
  have after : ¬ (f.inference csv (fill sd_vbuf g.data)).HasPred d := by
    rw [hasPred_byteDetector]
    simp only [BenchFile.inference]
    rw [fill_of_length_le (le_refl _), fill, List.getElem?_take_of_lt hi,
      List.getElem?_replicate_of_lt hi, Option.getD_some]
    exact fun h => by simp at h
  rw [List.map_cons, List.map_singleton, List.map_cons, List.map_singleton,
    executed_turn_cons named, executed_turn_cons named', executed_turn_cons named',
    executed_turn_cons named] at pred
  simp [executed, found, missing, before, after] at pred

theorem BenchFile.Full.harmless (lc : Libc F) (path : Bytes) (sd_vbuf : Nat → UInt8)
    (detections : Nat → OdPpOutBuffer F) {f : BenchFile} (full : f.Full) :
    Harmless lc path sd_vbuf detections f := by
  intro d csv others turns turns' others_full _ h h'
  apply countersOf_perm lc d sd_vbuf detections _ h h'
  intro g hg
  rcases List.mem_cons.mp hg with rfl | hg
  · exact full
  · exact others_full g hg

theorem harmless_iff_full (lc : Libc F) (path : Bytes) (sd_vbuf : Nat → UInt8)
    (detections : Nat → OdPpOutBuffer F) {f : BenchFile} (plain : PlainName f.name)
    (named : f.name ≠ []) : Harmless lc path sd_vbuf detections f ↔ f.Full :=
  ⟨Harmless.full plain named, BenchFile.Full.harmless lc path sd_vbuf detections⟩

/-- Images do not leak into each other exactly if they are complete. A directory of
complete files gives the same counters in every order; and a file, under any name that an
annotation file can contain, is harmless only if it is complete. -/
theorem order_irrelevant_iff_full (lc : Libc F) (path : Bytes) (sd_vbuf : Nat → UInt8)
    (detections : Nat → OdPpOutBuffer F) :
    (∀ (d : Detector F) (csv : OpenResult) (files : List BenchFile) (turns turns' : List Turn),
      (∀ f ∈ files, f.Full) → Presents path csv files turns → Presents path csv files turns' →
        countersOf lc d path csv turns sd_vbuf detections =
          countersOf lc d path csv turns' sd_vbuf detections) ∧
    ∀ f : BenchFile, PlainName f.name → f.name ≠ [] →
      (Harmless lc path sd_vbuf detections f ↔ f.Full) :=
  ⟨fun d _ _ _ _ full h h' => countersOf_perm lc d sd_vbuf detections full h h',
    fun _ plain named => harmless_iff_full lc path sd_vbuf detections plain named⟩

/-- In a directory with a file of one byte and an empty file, both with a record, a
detector that looks at the first byte sees the byte of the former in the latter as well,
but only if the former is listed first. -/
theorem order_matters :
    ¬ ∀ (lc : Libc ℚ) (d : Detector ℚ) (path : Bytes) (csv : OpenResult) (files : List BenchFile)
        (turns turns' : List Turn) (sd_vbuf : Nat → UInt8)
        (detections : Nat → OdPpOutBuffer ℚ), (files.map (·.name)).Nodup →
      Presents path csv files turns → Presents path csv files turns' →
        countersOf lc d path csv turns sd_vbuf detections =
          countersOf lc d path csv turns' sd_vbuf detections := by
  intro h
  have named : ∀ f ∈ ([⟨[97], [1], 20⟩, ⟨[98], [], 20⟩] : List BenchFile), f.name ≠ [] := by
    decide
  have named' : ∀ f ∈ ([⟨[98], [], 20⟩, ⟨[97], [1], 20⟩] : List BenchFile), f.name ≠ [] := by
    decide
  have counters := h .decimal (byteDetector 0 1) dir_path ⟨0, sampleCsv⟩ _ _ _ (fun _ => 0)
    (fun _ => ⟨0, 0, 0, 0, 0, 0⟩) (by decide)
    (presents_turns named (List.Perm.refl _)) (presents_turns named' (List.Perm.swap _ _ _))
  revert counters
  decide +kernel

end PeopleDetection
