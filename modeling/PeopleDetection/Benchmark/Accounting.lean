import Mathlib.Tactic.Ring
import PeopleDetection.Benchmark.History
import PeopleDetection.GroundTruth.Numerals

/-!
# The accounts of a whole run

The detection counters and the latency statistics at the end of a benchmark, in terms of
the inferences that it executed. An inference whose ground truth cannot be looked up is
skipped with a warning, and is in none of the accounts.
-/

namespace PeopleDetection

open Library

/-! ## Latency statistics -/

/-- Statistics of a sequence of measured latencies. -/
@[ext] structure Stats where
  count : Int
  samples : Int
  errors : Int
  sum : Int
  min : Int
  max : Int

/-- One more measurement. Only a positive one is a sample. -/
def Stats.add (st : Stats) (ms : Int) : Stats where
  count := st.count + 1
  samples := st.samples + if 0 < ms then 1 else 0
  errors := st.errors + if 0 < ms then 0 else 1
  sum := st.sum + if 0 < ms then ms else 0
  min := if 0 < ms then Min.min st.min ms else st.min
  max := if 0 < ms then Max.max st.max ms else st.max

/-- The latencies that count as samples. -/
def positives (latencies : List Int) : List Int := latencies.filter (0 < ·)

theorem mem_positives {latencies : List Int} {ms : Int} :
    ms ∈ positives latencies ↔ ms ∈ latencies ∧ 0 < ms := by
  simp [positives]

/-- The statistics of a list of measurements, on top of earlier ones. -/
theorem Stats.foldl_add (st : Stats) (latencies : List Int) :
    latencies.foldl Stats.add st =
      { count := st.count + latencies.length
        samples := st.samples + (positives latencies).length
        errors := st.errors + latencies.length - (positives latencies).length
        sum := st.sum + (positives latencies).sum
        min := (positives latencies).foldl Min.min st.min
        max := (positives latencies).foldl Max.max st.max } := by
  induction latencies generalizing st with
  | nil => simp [positives]
  | cons ms latencies ih =>
      rw [List.foldl_cons, ih]
      by_cases h : 0 < ms
      · have split : positives (ms :: latencies) = ms :: positives latencies := by
          simp [positives, h]
        rw [split]
        simp only [add, h, if_true, List.length_cons, List.sum_cons, List.foldl_cons]
        push_cast
        ext <;> dsimp only <;> ring
      · have split : positives (ms :: latencies) = positives latencies := by
          simp [positives, h]
        rw [split]
        simp only [add, h, if_false, List.length_cons]
        push_cast
        ext <;> dsimp only <;> ring

/-- The order of the measurements does not matter. -/
theorem Stats.foldl_add_perm (st : Stats) {xs ys : List Int} (h : xs.Perm ys) :
    xs.foldl Stats.add st = ys.foldl Stats.add st := by
  have pos : (positives xs).Perm (positives ys) := h.filter _
  rw [foldl_add, foldl_add, h.length_eq, pos.length_eq, pos.sum_eq, pos.foldl_eq, pos.foldl_eq]

variable {F : Type} [Zero F] [CFloat F]

namespace BenchState

variable {lc : Libc F} {d : Detector F} {path : Bytes} {total : Int} {s : BenchState F}

/-- The latency statistics among the counters. -/
def stats (s : BenchState F) : Stats where
  count := s.count
  samples := s.bench_samples
  errors := s.bench_errors
  sum := s.bench_sum_ms
  min := s.bench_min_ms
  max := s.bench_max_ms

omit [Zero F] [CFloat F] in
theorem stats_init (sd_vbuf : Nat → UInt8) (detections : Nat → OdPpOutBuffer F) :
    (BenchState.init sd_vbuf detections).stats = ⟨0, 0, 0, 0, INT_MAX, 0⟩ := rfl

theorem stats_tally : (s.tally total).stats = s.stats.add s.nn.latest_inference_time := by
  rw [tally_eq]
  rfl

theorem stats_score (gt : GtBoxes F) (preds : List DBox) : (s.score gt preds).stats = s.stats := by
  rw [score_eq]
  rfl

end BenchState

/-- The latencies of the inferences that were not skipped. -/
def latencies (lc : Libc F) (history : List Inference) : List Int :=
  (history.filter (·.Found lc)).map (·.latency)

/-- A measured latency is an `int`. -/
theorem executed_latency_le {path : Bytes} {turns : List Turn} {i : Inference} :
    ∀ {buffer : Nat → UInt8}, i ∈ executed path buffer turns → i.latency ≤ INT_MAX := by
  induction turns with
  | nil => exact fun h => by cases h
  | cons t turns ih =>
      intro buffer h
      rw [executed] at h
      split at h
      · cases h
      · split at h
        · exact ih h
        · split at h
          · cases h
          · rcases List.mem_cons.mp h with rfl | h
            · rw [Turn.inference_latency]
              exact t.latency_le
            · exact ih h

/-- Over files, the loop adds exactly these latencies to the statistics. -/
theorem BenchState.stats_finish (lc : Libc F) (d : Detector F) (path : Bytes) (total : Int)
    (s : BenchState F) {turns : List Turn} (files : ∀ t ∈ turns, t.isDir = false) :
    (s.finish lc d path total turns).stats =
      (latencies lc (executed path s.sd_vbuf turns)).foldl Stats.add s.stats := by
  induction turns generalizing s with
  | nil => rfl
  | cons t turns ih =>
      have file : t.isDir = false := files t (by simp)
      have rest := fun s => ih s fun t' ht' => files t' (List.mem_cons_of_mem _ ht')
      have step := turned lc d path total s t
      generalize hr : turn lc d path total s t = r at step
      cases step with
      | ends h =>
          rw [finish, Flow.run_cons_of_stop hr, executed_cons_of_ends h]
          rfl
      | listed h dir =>
          rw [file] at dir
          cases dir
      | failed h _ failed =>
          rw [finish, Flow.run_cons_of_stop hr, executed_cons_of_failed h file failed]
          rfl
      | skipped h _ opened missing =>
          rw [finish, Flow.run_cons_of_next hr, ← finish, rest,
            executed_cons_of_file h file opened, latencies, latencies,
            List.filter_cons_of_neg (by simpa using missing)]
          rfl
      | scored h _ opened found =>
          rw [finish, Flow.run_cons_of_next hr, ← finish, rest,
            executed_cons_of_file h file opened, latencies, latencies,
            List.filter_cons_of_pos (by simpa using found), List.map_cons, List.foldl_cons,
            stats_tally, stats_score, tally_sd_vbuf, score_sd_vbuf, score_nn]
          rfl

/-! ## The report -/

namespace BenchState

/-- The printed pair `P.QQ` is the ratio in percent, rounded down, and no product on the
way to it overflows. -/
structure Printed (p : Int × Int) (matched total : Int) : Prop where
  digits : 100 * p.1 + p.2 = 10000 * matched / total
  frac_nonneg : 0 ≤ p.2
  frac_lt : p.2 < 100
  le_hundred : 100 * p.1 + p.2 ≤ 10000
  no_overflow : 0 ≤ matched * 10000 ∧ matched * 10000 ≤ INT_MAX

theorem printed_ratio {matched total : Int} (nonneg : 0 ≤ matched) (le : matched ≤ total)
    (pos : 0 < total) (small : total ≤ 65536) :
    Printed (ratio matched total) matched total := by
  let r := ratio matched total
  have hundred : i32 (matched * 100) = matched * 100 :=
    i32_eq_self (by simp only [INT_MIN]; omega) (by simp only [INT_MAX]; omega)
  have tenThousand : i32 (matched * 10000) = matched * 10000 :=
    i32_eq_self (by simp only [INT_MIN]; omega) (by simp only [INT_MAX]; omega)
  have whole : r.1 = matched * 100 / total := by
    simp only [r, ratio, hundred]
    exact Int.tdiv_eq_ediv_of_nonneg (by omega)
  have quot_nonneg : 0 ≤ matched * 10000 / total := Int.ediv_nonneg (by omega) pos.le
  have frac : r.2 = matched * 10000 / total % 100 := by
    simp only [r, ratio, tenThousand]
    rw [Int.tdiv_eq_ediv_of_nonneg (by omega), Int.tmod_eq_emod_of_nonneg quot_nonneg]
  have digits : matched * 100 / total = matched * 10000 / total / 100 := by
    rw [Int.ediv_ediv_of_nonneg pos.le, show matched * 10000 = matched * 100 * 100 by ring,
      Int.mul_ediv_mul_of_pos_left _ _ (by decide)]
  have sum : 100 * r.1 + r.2 = matched * 10000 / total := by
    rw [whole, frac, digits]
    omega
  refine ⟨sum.trans (by rw [mul_comm 10000]), ?_, ?_, ?_, ?_⟩
  · exact frac ▸ Int.emod_nonneg _ (by decide)
  · exact frac ▸ Int.emod_lt_of_pos _ (by decide)
  · exact sum ▸ Int.ediv_le_of_le_mul pos (by omega)
  · simp only [INT_MAX]
    omega

/-- A line of the report: missing if there is nothing to relate to, and else the ratio. -/
structure RatioLine (line : Option (Int × Int)) (matched total : Int) : Prop where
  missing : total = 0 → line = none
  printed : total ≠ 0 → ∃ p, line = some p ∧ Printed p matched total

omit [Zero F] [CFloat F] in
/-- The two lines of the report. -/
theorem ratioLine_report {s : BenchState F} (nonneg : 0 ≤ s.gt_matched)
    (same : s.gt_matched = s.pred_matched) (gt : s.gt_matched ≤ s.img_with_gt)
    (pred : s.gt_matched ≤ s.img_with_pred) (smallGt : s.img_with_gt ≤ 65536)
    (smallPred : s.img_with_pred ≤ 65536) :
    RatioLine s.report.recall_ratio s.gt_matched s.img_with_gt ∧
      RatioLine s.report.prec_ratio s.pred_matched s.img_with_pred := by
  constructor
  · refine ⟨fun zero => if_neg (not_not.mpr zero), fun some => ⟨_, if_pos some, ?_⟩⟩
    exact printed_ratio nonneg gt (by omega) smallGt
  · refine ⟨fun zero => if_neg (not_not.mpr zero), fun some => ⟨_, if_pos some, ?_⟩⟩
    rw [← same]
    exact printed_ratio nonneg pred (by omega) smallPred

end BenchState

/-! ## The end of the run -/

/-- A run that reports has been through the loop. -/
theorem run_benchmark_state (lc : Libc F) (d : Detector F) (path : Bytes) (card : Card)
    (s : BenchState F)
    (reached : (run_benchmark_on_sd_card lc d path card s).report ≠ none) :
    let total := (count_csv_lines card.csv).ret
    let s' := (s.log (count_csv_lines card.csv).trace).log [.opened .dir]
    let o := run_benchmark_on_sd_card lc d path card s
    0 < total ∧ o.state = (s'.finish lc d path total card.turns).log [.closed .dir] ∧
      o.report = some o.state.report := by
  intro total s' o
  revert reached
  simp only [o, run_benchmark_on_sd_card, BenchState.finish]
  split
  · simp
  · next lines =>
      split
      · simp
      · generalize Flow.run (BenchState.turn lc d path total) s' card.turns = r
        intro reached
        refine ⟨not_le.mp lines, ?_⟩
        rcases r with r | ⟨e, r⟩
        · exact ⟨rfl, rfl⟩
        · cases e with
          | endOfDir res => exact ⟨rfl, rfl⟩
          | openError ret => exact absurd rfl reached

/-- A run whose loop reaches the end of the listing. -/
theorem run_benchmark_of_next {lc : Libc F} {d : Detector F} {path : Bytes} {csv : OpenResult}
    {turns : List Turn} {s s' : BenchState F} (lines : ¬ (count_csv_lines csv).ret ≤ 0)
    (run : Flow.run (BenchState.turn lc d path (count_csv_lines csv).ret)
      ((s.log (count_csv_lines csv).trace).log [.opened .dir]) turns = .next s') :
    run_benchmark_on_sd_card lc d path ⟨csv, 0, turns⟩ s =
      { ret := s'.count, state := s'.log [.closed .dir], report := some s'.report } := by
  simp only [run_benchmark_on_sd_card, if_neg lines, ne_eq, not_true_eq_false, if_false, run]

/-- The latency statistics of a run that reports. -/
theorem run_benchmark_stats (lc : Libc F) (d : Detector F) (path : Bytes) (card : Card)
    (s : BenchState F) (files : ∀ t ∈ card.turns, t.isDir = false)
    (reached : (run_benchmark_on_sd_card lc d path card s).report ≠ none) :
    (run_benchmark_on_sd_card lc d path card s).state.stats =
      (latencies lc (executed path s.sd_vbuf card.turns)).foldl Stats.add s.stats := by
  obtain ⟨-, state, -⟩ := run_benchmark_state lc d path card s reached
  rw [state]
  exact BenchState.stats_finish lc d path (count_csv_lines card.csv).ret
    ((s.log (count_csv_lines card.csv).trace).log [.opened .dir]) files

/-- A run executes at most one inference in each turn. -/
theorem length_executed_le (path : Bytes) (buffer : Nat → UInt8) (turns : List Turn) :
    (executed path buffer turns).length ≤ turns.length := by
  induction turns generalizing buffer with
  | nil => exact Nat.le_refl _
  | cons t turns ih =>
      rw [executed, List.length_cons]
      split
      · exact Nat.zero_le _
      · split
        · exact (ih buffer).trans (Nat.le_succ _)
        · split
          · exact Nat.zero_le _
          · exact Nat.succ_le_succ (ih _)

/-- The report of counters that count inferences of a history. -/
theorem BenchState.ratioLine_of_counts {lc : Libc F} {d : Detector F} {history : List Inference}
    (small : history.length ≤ 65536) {s : BenchState F}
    (gt : s.img_with_gt = history.countP (·.HasGt lc))
    (pred : s.img_with_pred = history.countP (fun i => i.Found lc ∧ i.HasPred d))
    (matchGt : s.gt_matched = history.countP (·.Matched lc d))
    (matchPred : s.pred_matched = history.countP (·.Matched lc d)) :
    RatioLine s.report.recall_ratio (history.countP (·.Matched lc d))
        (history.countP (·.HasGt lc)) ∧
      RatioLine s.report.prec_ratio (history.countP (·.Matched lc d))
        (history.countP (fun i => i.Found lc ∧ i.HasPred d)) := by
  have gtSmall := (List.countP_le_length (p := (·.HasGt lc)) (l := history)).trans small
  have predSmall := (List.countP_le_length
    (p := fun i : Inference => i.Found lc ∧ i.HasPred d) (l := history)).trans small
  have matchedGt : history.countP (·.Matched lc d) ≤ history.countP (·.HasGt lc) :=
    List.countP_mono_left fun i _ hi => decide_eq_true (of_decide_eq_true hi).hasGt
  have matchedPred : history.countP (·.Matched lc d) ≤
      history.countP (fun i => i.Found lc ∧ i.HasPred d) :=
    List.countP_mono_left fun i _ hi => by
      have both := of_decide_eq_true hi
      exact decide_eq_true ⟨both.hasGt.found, both.hasPred⟩
  have lines := ratioLine_report (s := s) (by omega) (by omega) (by omega) (by omega) (by omega)
    (by omega)
  rwa [gt, pred, matchGt, matchPred] at lines

/-- Detection accounting. At the end of a run, the counters are numbers of executed
inferences, and the report prints their ratios. Images without a record are not scored, so
predictions are counted only on images with one. -/
theorem detection_accounting (lc : Libc F) (d : Detector F) (path : Bytes) (card : Card)
    (sd_vbuf : Nat → UInt8) (detections : Nat → OdPpOutBuffer F)
    (reached :
      (run_benchmark_on_sd_card lc d path card (.init sd_vbuf detections)).report ≠ none) :
    let o := run_benchmark_on_sd_card lc d path card (.init sd_vbuf detections)
    let history := executed path sd_vbuf card.turns
    let withGt := history.countP (·.HasGt lc)
    let withPred := history.countP (fun i => i.Found lc ∧ i.HasPred d)
    let matched := history.countP (·.Matched lc d)
    o.state.img_with_gt = withGt ∧ o.state.img_with_pred = withPred ∧
    o.state.gt_matched = matched ∧ o.state.pred_matched = matched ∧
    o.report = some o.state.report ∧
    (card.turns.length ≤ 65536 →
      BenchState.RatioLine o.state.report.recall_ratio matched withGt ∧
      BenchState.RatioLine o.state.report.prec_ratio matched withPred) := by
  intro o history withGt withPred matched
  obtain ⟨-, state, report⟩ := run_benchmark_state lc d path card _ reached
  have counters := BenchState.detection_counters lc d path (count_csv_lines card.csv).ret
    (((BenchState.init sd_vbuf detections).log (count_csv_lines card.csv).trace).log
      [.opened .dir]) card.turns
  simp only [BenchState.log, BenchState.init, zero_add] at counters
  have counted : o.state.img_with_gt = withGt ∧ o.state.img_with_pred = withPred ∧
      o.state.gt_matched = matched ∧ o.state.pred_matched = matched := by
    simp only [o, state]
    exact counters
  obtain ⟨gt, pred, matchGt, matchPred⟩ := counted
  refine ⟨gt, pred, matchGt, matchPred, report, fun fat => ?_⟩
  exact BenchState.ratioLine_of_counts ((length_executed_le path sd_vbuf card.turns).trans fat)
    gt pred matchGt matchPred

/-- Every call to the file system succeeds, and the annotation file does not change. -/
def Card.Succeeds (path : Bytes) (card : Card) : Prop :=
  0 ≤ card.csv.ret ∧ card.opendir = 0 ∧
    ∀ t ∈ card.turns, t.readdir = 0 ∧ 0 ≤ (t.file path).ret ∧ t.csv = card.csv

/-- The turn of an empty image file. -/
def sampleTurn (name csv : Bytes) (ms : UInt32) : Turn where
  readdir := 0
  name := name
  isDir := false
  openImage _ := ⟨0, []⟩
  csv := ⟨0, csv⟩
  t0 := 0
  t1 := ms

/-- A directory with the images `b` and `c`, and an annotation file with a record for
`b` only: `b,1,0,0,112,112`. -/
def sampleCard : Card where
  csv := ⟨0, sampleRecord⟩
  opendir := 0
  turns := [sampleTurn [98] sampleRecord 20, sampleTurn [99] sampleRecord 30]
where
  sampleRecord : Bytes :=
    [98, COMMA, 49, COMMA, 48, COMMA, 48, COMMA, 49, 49, 50, COMMA, 49, 49, 50, LF]

/-- A detector that finds a person in the upper left quarter of every image. -/
def sampleDetector : Detector ℚ where
  detect _ := [⟨1 / 4, 1 / 4, 1 / 2, 1 / 2, 1, 0⟩]
  length_le _ := by decide

/-- The sample run ends with its report. -/
theorem sampleCard_reached : (run_benchmark_on_sd_card .decimal sampleDetector dir_path sampleCard
    (.init (fun _ => 0) fun _ => ⟨0, 0, 0, 0, 0, 0⟩)).report ≠ none := by
  rw [← Option.isSome_iff_ne_none]
  decide +kernel

/-- In the sample run, one of two inferences with a prediction is scored. -/
theorem detection_accounting_sample :
    let o := run_benchmark_on_sd_card .decimal sampleDetector dir_path sampleCard
      (.init (fun _ => 0) fun _ => ⟨0, 0, 0, 0, 0, 0⟩)
    let history := executed dir_path (fun _ => 0) sampleCard.turns
    let withGt := history.countP (·.HasGt .decimal)
    let withPred := history.countP (fun i => i.Found .decimal ∧ i.HasPred sampleDetector)
    let matched := history.countP (·.Matched .decimal sampleDetector)
    o.state.img_with_gt = withGt ∧ o.state.img_with_pred = withPred ∧
    o.state.gt_matched = matched ∧ o.state.pred_matched = matched ∧
    o.report = some o.state.report ∧
    BenchState.RatioLine o.state.report.recall_ratio matched withGt ∧
    BenchState.RatioLine o.state.report.prec_ratio matched withPred := by
  obtain ⟨gt, pred, matchGt, matchPred, report, lines⟩ := detection_accounting .decimal
    sampleDetector dir_path sampleCard (fun _ => 0) (fun _ => ⟨0, 0, 0, 0, 0, 0⟩) sampleCard_reached
  exact ⟨gt, pred, matchGt, matchPred, report, lines (by decide)⟩

/-- A prediction on an image without a record is not counted. -/
theorem img_with_pred_ne_predictions :
    ¬ ∀ (lc : Libc ℚ) (d : Detector ℚ) (path : Bytes) (card : Card) (sd_vbuf : Nat → UInt8)
        (detections : Nat → OdPpOutBuffer ℚ), card.Succeeds path →
      (run_benchmark_on_sd_card lc d path card (.init sd_vbuf detections)).report ≠ none →
      (run_benchmark_on_sd_card lc d path card (.init sd_vbuf detections)).state.img_with_pred =
        (executed path sd_vbuf card.turns).countP (·.HasPred d) := by
  intro h
  have succeeds : sampleCard.Succeeds dir_path := by
    refine ⟨by decide, rfl, ?_⟩
    intro t ht
    simp only [sampleCard, List.mem_cons, List.not_mem_nil, or_false] at ht
    rcases ht with rfl | rfl <;> exact ⟨rfl, by decide, rfl⟩
  have counted := h .decimal sampleDetector dir_path sampleCard (fun _ => 0)
    (fun _ => ⟨0, 0, 0, 0, 0, 0⟩) succeeds sampleCard_reached
  revert counted
  decide +kernel

/-- Latency accounting. In a directory of files, every inference that is not skipped is
counted once, and the statistics are those of the positive latencies among them. -/
theorem latency_accounting (lc : Libc F) (d : Detector F) (path : Bytes) (card : Card)
    (sd_vbuf : Nat → UInt8) (detections : Nat → OdPpOutBuffer F)
    (files : ∀ t ∈ card.turns, t.isDir = false)
    (reached :
      (run_benchmark_on_sd_card lc d path card (.init sd_vbuf detections)).report ≠ none) :
    let o := run_benchmark_on_sd_card lc d path card (.init sd_vbuf detections)
    let all := latencies lc (executed path sd_vbuf card.turns)
    o.state.bench_samples + o.state.bench_errors = all.length ∧
    o.state.bench_sum_ms = (positives all).sum ∧
    (positives all ≠ [] → (positives all).min? = some o.state.bench_min_ms ∧
      (positives all).max? = some o.state.bench_max_ms) := by
  intro o all
  have stats := run_benchmark_stats lc d path card (.init sd_vbuf detections) files reached
  rw [BenchState.stats_init, Stats.foldl_add] at stats
  have samples : o.state.bench_samples = 0 + (positives all).length :=
    congrArg Stats.samples stats
  have errors : o.state.bench_errors = 0 + all.length - (positives all).length :=
    congrArg Stats.errors stats
  have sum : o.state.bench_sum_ms = 0 + (positives all).sum := congrArg Stats.sum stats
  have min : o.state.bench_min_ms = (positives all).foldl Min.min INT_MAX :=
    congrArg Stats.min stats
  have max : o.state.bench_max_ms = (positives all).foldl Max.max 0 :=
    congrArg Stats.max stats
  refine ⟨by omega, by omega, fun nonempty => ⟨?_, ?_⟩⟩
  · obtain ⟨least, hleast⟩ := Option.isSome_iff_exists.mp (List.isSome_min?_of_ne_nil nonempty)
    obtain ⟨i, hi, rfl⟩ := List.mem_map.mp (mem_positives.mp (List.min?_mem hleast)).1
    have range := executed_latency_le (List.mem_of_mem_filter hi)
    rw [List.foldl_min, hleast, Option.getD_some, min_eq_right range] at min
    rw [hleast, ← min]
  · obtain ⟨most, hmost⟩ := Option.isSome_iff_exists.mp (List.isSome_max?_of_ne_nil nonempty)
    have positive := (mem_positives.mp (List.max?_mem hmost)).2
    rw [List.foldl_max, hmost, Option.getD_some, max_eq_right positive.le] at max
    rw [hmost, ← max]

/-- The statistics of the sample run. -/
theorem latency_accounting_sample :
    let o := run_benchmark_on_sd_card .decimal sampleDetector dir_path sampleCard
      (.init (fun _ => 0) fun _ => ⟨0, 0, 0, 0, 0, 0⟩)
    let all := latencies .decimal (executed dir_path (fun _ => 0) sampleCard.turns)
    o.state.bench_samples + o.state.bench_errors = all.length ∧
    o.state.bench_sum_ms = (positives all).sum ∧
    (positives all ≠ [] → (positives all).min? = some o.state.bench_min_ms ∧
      (positives all).max? = some o.state.bench_max_ms) :=
  latency_accounting .decimal sampleDetector dir_path sampleCard (fun _ => 0)
    (fun _ => ⟨0, 0, 0, 0, 0, 0⟩)
    (by
      intro t ht
      simp only [sampleCard, List.mem_cons, List.not_mem_nil, or_false] at ht
      rcases ht with rfl | rfl <;> rfl)
    sampleCard_reached

/-- An inference whose lookup fails is neither a sample nor an error. -/
theorem latency_counters_ne_inferences :
    ¬ ∀ (lc : Libc ℚ) (d : Detector ℚ) (path : Bytes) (card : Card) (sd_vbuf : Nat → UInt8)
        (detections : Nat → OdPpOutBuffer ℚ),
      (run_benchmark_on_sd_card lc d path card (.init sd_vbuf detections)).report ≠ none →
      let o := run_benchmark_on_sd_card lc d path card (.init sd_vbuf detections)
      o.state.bench_samples + o.state.bench_errors =
        (executed path sd_vbuf card.turns).length := by
  intro h
  have counted := h .decimal sampleDetector dir_path sampleCard (fun _ => 0)
    (fun _ => ⟨0, 0, 0, 0, 0, 0⟩) sampleCard_reached
  revert counted
  decide +kernel

end PeopleDetection
