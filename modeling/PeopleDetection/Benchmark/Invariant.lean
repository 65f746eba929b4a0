import Mathlib.Data.Int.DivMod
import Mathlib.Tactic.Linarith
import PeopleDetection.Benchmark.Accounting

/-!
# The counters at every loop head

Whatever the outside world answers, no image is matched that lacks ground truth or
predictions, and the sum of the samples lies between their number times the minimum and
their number times the maximum. The display and the report are computed from such
counters.
-/

namespace PeopleDetection

open Library

/-! ## Latencies -/

/-- The statistics belong to some sequence of positive samples. -/
structure Stats.Consistent (st : Stats) : Prop where
  samples_nonneg : 0 ≤ st.samples
  max_le : st.max ≤ INT_MAX
  none : st.samples = 0 → st.min = INT_MAX ∧ st.max = 0 ∧ st.sum = 0
  pos : 0 < st.samples → 0 < st.min
  min_le_max : 0 < st.samples → st.min ≤ st.max
  le_sum : st.samples * st.min ≤ st.sum
  sum_le : st.sum ≤ st.samples * st.max

namespace Stats.Consistent

variable {st : Stats}

/-- A further measurement keeps the statistics consistent. -/
theorem add (h : st.Consistent) {ms : Int} (range : ms ≤ INT_MAX) : (st.add ms).Consistent := by
  have count := h.samples_nonneg
  by_cases positive : 0 < ms
  · simp only [Stats.add, positive, if_true]
    have max_le : Max.max st.max ms ≤ INT_MAX := by
      have := h.max_le
      omega
    have lower : st.samples * Min.min st.min ms ≤ st.sum :=
      (mul_le_mul_of_nonneg_left (min_le_left _ _) count).trans h.le_sum
    have upper : st.sum ≤ st.samples * Max.max st.max ms :=
      h.sum_le.trans (mul_le_mul_of_nonneg_left (le_max_left _ _) count)
    have pos : 0 < Min.min st.min ms := by
      rcases count.eq_or_lt with zero | some
      · rw [(h.none zero.symm).1]
        simp only [INT_MAX]
        omega
      · exact lt_min (h.pos some) positive
    refine ⟨by dsimp only; omega, max_le, fun zero => by dsimp only at zero; omega,
      fun _ => pos, fun _ => (min_le_right _ _).trans (le_max_right _ _), ?_, ?_⟩
    · dsimp only
      linarith [min_le_right st.min ms]
    · dsimp only
      linarith [le_max_right st.max ms]
  · simp only [Stats.add, positive, if_false, add_zero]
    exact ⟨h.samples_nonneg, h.max_le, h.none, h.pos, h.min_le_max, h.le_sum, h.sum_le⟩

end Stats.Consistent

variable {F : Type} [Zero F] [CFloat F]

namespace BenchState

/-- The display shows the latencies of a state, and they are in order. A minimum that is still
the initial one is shown as zero. -/
structure Shows (c : Display F) (s : BenchState F) : Prop where
  min : c.min = if s.bench_min_ms = INT_MAX then 0 else s.bench_min_ms
  avg : c.avg = s.bench_sum_ms / s.bench_samples
  max : c.max = s.bench_max_ms
  min_le_avg : c.min ≤ c.avg
  avg_le_max : c.avg ≤ c.max

omit [Zero F] [CFloat F] in
/-- What is shown depends on the latencies only. -/
theorem Shows.of_stats {c : Display F} {s t : BenchState F} (h : Shows c s)
    (same : s.stats = t.stats) : Shows c t := by
  obtain ⟨min, avg, max, lower, upper⟩ := h
  rw [show s.bench_min_ms = t.bench_min_ms from congrArg Stats.min same] at min
  rw [show s.bench_sum_ms = t.bench_sum_ms from congrArg Stats.sum same,
    show s.bench_samples = t.bench_samples from congrArg Stats.samples same] at avg
  rw [show s.bench_max_ms = t.bench_max_ms from congrArg Stats.max same] at max
  exact ⟨min, avg, max, lower, upper⟩

omit [Zero F] [CFloat F] in
/-- The displayed average lies between the displayed minimum and maximum. -/
theorem shows_decorate_benchmark {s : BenchState F} (h : s.stats.Consistent) (total : Int)
    (percent : F) : Shows (s.decorate_benchmark total percent) s := by
  have lower := h.le_sum
  have upper := h.sum_le
  have max_le := h.max_le
  simp only [stats] at lower upper max_le
  by_cases some : 0 < s.bench_samples
  · have pos : 0 < s.bench_min_ms := h.pos some
    have sum_pos : 0 ≤ s.bench_sum_ms :=
      (mul_nonneg some.le pos.le).trans lower
    have quot : Int.tdiv s.bench_sum_ms s.bench_samples = s.bench_sum_ms / s.bench_samples :=
      Int.tdiv_eq_ediv_of_nonneg sum_pos
    have le_quot : s.bench_min_ms ≤ s.bench_sum_ms / s.bench_samples := by
      rw [Int.le_ediv_iff_mul_le some, mul_comm]
      exact lower
    have quot_le : s.bench_sum_ms / s.bench_samples ≤ s.bench_max_ms :=
      Int.ediv_le_of_le_mul some (by rw [mul_comm]; exact upper)
    have avg : (s.decorate_benchmark total percent).avg = s.bench_sum_ms / s.bench_samples := by
      simp only [decorate_benchmark, gt_iff_lt, some, if_true, quot]
      exact i32_eq_self (by simp only [INT_MIN]; omega) (quot_le.trans max_le)
    refine ⟨rfl, avg, rfl, ?_, avg ▸ quot_le⟩
    rw [avg]
    simp only [decorate_benchmark]
    split
    · omega
    · exact le_quot
  · have none : s.bench_samples = 0 := le_antisymm (not_lt.mp some) h.samples_nonneg
    obtain ⟨min, max, -⟩ := h.none none
    simp only [stats] at min max
    constructor <;> simp [decorate_benchmark, none, min, max]

/-- `tally` shows the statistics that it leaves behind. -/
theorem tally_canvas (s : BenchState F) (total : Int) :
    ∃ (s' : BenchState F) (percent : F),
      (s.tally total).canvas = some (s'.decorate_benchmark total percent) ∧
        s'.stats = (s.tally total).stats :=
  ⟨_, _, rfl, rfl⟩

/-! ## The invariant -/

/-- What holds of the counters after `n` turns. -/
structure Invariant (n : Nat) (s : BenchState F) : Prop where
  matched_nonneg : 0 ≤ s.gt_matched
  matched_eq : s.gt_matched = s.pred_matched
  matched_le_gt : s.gt_matched ≤ s.img_with_gt
  matched_le_pred : s.gt_matched ≤ s.img_with_pred
  gt_le : s.img_with_gt ≤ n
  pred_le : s.img_with_pred ≤ n
  stats : s.stats.Consistent
  latest : s.nn.latest_inference_time ≤ INT_MAX
  shown : ∀ c ∈ s.canvas, Shows c s
  displayed : 0 < s.bench_samples → s.canvas ≠ none

namespace Invariant

variable {n : Nat} {s : BenchState F} {lc : Libc F} {d : Detector F} {path : Bytes}
  {total : Int} {t : Turn}

omit [Zero F] [CFloat F] in
theorem init (sd_vbuf : Nat → UInt8) (detections : Nat → OdPpOutBuffer F)
    (events : List FsEvent) : Invariant 0 ((BenchState.init sd_vbuf detections).log events) where
  matched_nonneg := le_refl _
  matched_eq := rfl
  matched_le_gt := le_refl _
  matched_le_pred := le_refl _
  gt_le := le_refl _
  pred_le := le_refl _
  stats :=
    { samples_nonneg := le_refl _
      max_le := show (0 : Int) ≤ INT_MAX by decide
      none := fun _ => ⟨rfl, rfl, rfl⟩
      pos := fun some => absurd some (lt_irrefl (0 : Int))
      min_le_max := fun some => absurd some (lt_irrefl (0 : Int))
      le_sum := le_of_eq (zero_mul _)
      sum_le := le_of_eq (zero_mul _).symm }
  latest := show (0 : Int) ≤ INT_MAX by decide
  shown c h := by cases h
  displayed some := absurd some (lt_irrefl (0 : Int))

omit [Zero F] [CFloat F] in
theorem log (h : Invariant n s) (events : List FsEvent) : Invariant n (s.log events) :=
  { h with shown := fun c hc => (h.shown c hc).of_stats rfl }

omit [Zero F] [CFloat F] in
theorem mono (h : Invariant n s) {m : Nat} (le : n ≤ m) : Invariant m s :=
  { h with
    gt_le := h.gt_le.trans (Nat.cast_le.mpr le)
    pred_le := h.pred_le.trans (Nat.cast_le.mpr le) }

theorem tally (h : Invariant n s) : Invariant n (s.tally total) where
  matched_nonneg := by simpa using h.matched_nonneg
  matched_eq := by simpa using h.matched_eq
  matched_le_gt := by simpa using h.matched_le_gt
  matched_le_pred := by simpa using h.matched_le_pred
  gt_le := by simpa using h.gt_le
  pred_le := by simpa using h.pred_le
  stats := by
    rw [stats_tally]
    exact h.stats.add h.latest
  latest := by simpa using h.latest
  shown c hc := by
    obtain ⟨s', percent, canvas, same⟩ := tally_canvas s total
    rw [canvas, Option.mem_some_iff] at hc
    have consistent : s'.stats.Consistent := by
      rw [same, stats_tally]
      exact h.stats.add h.latest
    rw [← hc]
    exact (shows_decorate_benchmark consistent total percent).of_stats same
  displayed _ := by
    obtain ⟨s', percent, canvas, -⟩ := tally_canvas s total
    rw [canvas]
    exact Option.some_ne_none _

omit [CFloat F] in
theorem inferred (h : Invariant n s) : Invariant n (s.inferred lc d path t) :=
  { h with
    latest := by
      rw [inferred_latest_inference_time]
      exact t.latency_le
    shown := fun c hc => (h.shown c hc).of_stats rfl }

/-- A scored image is counted at most once on each side, and matched only if on both. -/
theorem score (h : Invariant n s) (gt : GtBoxes F) (preds : List DBox) :
    Invariant (n + 1) (s.score gt preds) := by
  have matched := h.matched_nonneg
  have same := h.matched_eq
  have le_gt := h.matched_le_gt
  have le_pred := h.matched_le_pred
  have gt_le := h.gt_le
  have pred_le := h.pred_le
  have both : searchMatch gt preds = true → 0 < gt.count ∧ preds ≠ [] := by
    rw [searchMatch_eq, decide_eq_true_eq]
    rintro ⟨gi, hgi, p, hp, -⟩
    exact ⟨by omega, List.ne_nil_of_mem hp⟩
  have counted : (if searchMatch gt preds then (1 : Int) else 0) ≤
      (if 0 < gt.count then 1 else 0) ∧
      (if searchMatch gt preds then (1 : Int) else 0) ≤ (if preds ≠ [] then 1 else 0) := by
    by_cases hm : searchMatch gt preds = true
    · obtain ⟨hg, hp⟩ := both hm
      simp [hm, hg, hp]
    · rw [if_neg hm]
      constructor <;> split <;> decide
  have bit : ∀ (p : Prop) [Decidable p], 0 ≤ (if p then (1 : Int) else 0) ∧
      (if p then (1 : Int) else 0) ≤ 1 := by
    intro p _
    split <;> decide
  have bm := bit (searchMatch gt preds = true)
  have bg := bit (0 < gt.count)
  have bp := bit (preds ≠ [])
  constructor
  case stats => rw [stats_score]; exact h.stats
  case latest => rw [score_nn]; exact h.latest
  case shown =>
    intro c hc
    rw [score_eq] at hc
    exact (h.shown c hc).of_stats (stats_score gt preds).symm
  case displayed =>
    rw [score_eq]
    exact h.displayed
  all_goals
    simp only [score_img_with_gt, score_img_with_pred, score_gt_matched, score_pred_matched]
    push_cast
    omega

/-- One turn keeps the invariant. -/
theorem turn (h : Invariant n s) {s' : BenchState F}
    (next : BenchState.turn lc d path total s t = .next s') : Invariant (n + 1) s' := by
  have step := turned lc d path total s t
  rw [next] at step
  cases step with
  | listed => exact h.tally.mono (Nat.le_succ n)
  | skipped => exact h.inferred.mono (Nat.le_succ n)
  | scored => exact (h.inferred.score _ _).tally

/-- Every loop head of a run satisfies the invariant. -/
theorem run (h : Invariant 0 s) {front : List Turn} {s' : BenchState F}
    (head : Flow.run (BenchState.turn lc d path total) s front = .next s') :
    Invariant front.length s' :=
  Flow.run_inv (P := fun front s => Invariant front.length s) h
    (fun front t u v hu next => by
      rw [List.length_append, List.length_singleton]
      exact hu.turn next)
    head

/-- The run ends in the state of its last loop head, or reports an image that does not
open. -/
theorem finish (h : Invariant 0 s) (lc : Libc F) (d : Detector F) (path : Bytes) (total : Int)
    (turns : List Turn) :
    Invariant turns.length (s.finish lc d path total turns) := by
  cases hr : Flow.run (BenchState.turn lc d path total) s turns with
  | next s' =>
      rw [BenchState.finish, hr]
      exact h.run hr
  | stop e s' =>
      rw [BenchState.finish, hr]
      obtain ⟨front, t, back, u, rfl, head, last⟩ := Flow.run_eq_stop hr
      have before := (h.run head).mono (show front.length ≤ (front ++ t :: back).length by simp)
      have step := turned lc d path total u t
      rw [last] at step
      cases step with
      | ends => exact before
      | failed => exact before.log _

end Invariant

omit [Zero F] [CFloat F] in
/-- The report of the counters of a run over a FAT directory. -/
theorem Invariant.ratioLine_report {n : Nat} {s : BenchState F} (h : Invariant n s)
    (small : n ≤ 65536) :
    RatioLine s.report.recall_ratio s.gt_matched s.img_with_gt ∧
      RatioLine s.report.prec_ratio s.pred_matched s.img_with_pred := by
  have gt_le := h.gt_le
  have pred_le := h.pred_le
  exact BenchState.ratioLine_report h.matched_nonneg h.matched_eq h.matched_le_gt
    h.matched_le_pred (by omega) (by omega)

end BenchState

/-- A run reports unless it returns before: there are no lines, the directory does not open,
or an image does not. -/
theorem run_benchmark_report_eq_none_iff (lc : Libc F) (d : Detector F) (path : Bytes)
    (card : Card) (s : BenchState F) :
    let lines := count_csv_lines card.csv
    let start := (s.log lines.trace).log [.opened .dir]
    (run_benchmark_on_sd_card lc d path card s).report = none ↔
      lines.ret ≤ 0 ∨ card.opendir ≠ 0 ∨ ∃ ret s',
        Flow.run (BenchState.turn lc d path lines.ret) start card.turns =
          .stop (.openError ret) s' := by
  intro lines start
  rw [run_benchmark_on_sd_card]
  by_cases none : lines.ret ≤ 0
  · simp [lines, none]
  · by_cases closed : card.opendir ≠ 0
    · simp [lines, none, closed]
    · simp only [show ¬ (count_csv_lines card.csv).ret ≤ 0 from none, closed, if_false, false_or,
        start, lines]
      generalize Flow.run (BenchState.turn lc d path (count_csv_lines card.csv).ret)
        ((s.log (count_csv_lines card.csv).trace).log [.opened .dir]) card.turns = r
      rcases r with s' | ⟨e, s'⟩
      · simp
      · cases e <;> simp

/-- The counters of the benchmark. At every loop head, matched images are among those with
ground truth and among those with predictions, and the latency statistics and the display
are consistent. A run that does not return before prints the two ratios in percent, each
unless there is nothing to relate to. -/
theorem counters_at_every_loop_head (lc : Libc F) (d : Detector F) (path : Bytes) (card : Card)
    (sd_vbuf : Nat → UInt8) (detections : Nat → OdPpOutBuffer F)
    (fat : card.turns.length ≤ 65536) :
    let lines := count_csv_lines card.csv
    let start := ((BenchState.init sd_vbuf detections).log lines.trace).log [.opened .dir]
    let o := run_benchmark_on_sd_card lc d path card (.init sd_vbuf detections)
    (∀ front s, front <+: card.turns →
      Flow.run (BenchState.turn lc d path lines.ret) start front = .next s →
        0 ≤ s.gt_matched ∧ s.gt_matched = s.pred_matched ∧
        s.gt_matched ≤ min s.img_with_gt s.img_with_pred ∧
        (0 < s.bench_samples → 0 < s.bench_min_ms ∧ s.bench_min_ms ≤ s.bench_max_ms ∧
          s.bench_samples * s.bench_min_ms ≤ s.bench_sum_ms ∧
          s.bench_sum_ms ≤ s.bench_samples * s.bench_max_ms ∧ s.canvas ≠ none) ∧
        ∀ c ∈ s.canvas, BenchState.Shows c s) ∧
    (o.report = none ↔ lines.ret ≤ 0 ∨ card.opendir ≠ 0 ∨ ∃ ret s,
      Flow.run (BenchState.turn lc d path lines.ret) start card.turns =
        .stop (.openError ret) s) ∧
    ∀ r, o.report = some r →
      BenchState.RatioLine r.recall_ratio o.state.gt_matched o.state.img_with_gt ∧
      BenchState.RatioLine r.prec_ratio o.state.pred_matched o.state.img_with_pred := by
  intro lines start o
  have before : BenchState.Invariant 0 start :=
    (BenchState.Invariant.init sd_vbuf detections lines.trace).log [.opened .dir]
  refine ⟨fun front s _ head => ?_, run_benchmark_report_eq_none_iff lc d path card _,
    fun r hr => ?_⟩
  · have inv := before.run head
    exact ⟨inv.matched_nonneg, inv.matched_eq, le_min inv.matched_le_gt inv.matched_le_pred,
      fun some => ⟨inv.stats.pos some, inv.stats.min_le_max some, inv.stats.le_sum,
        inv.stats.sum_le, inv.displayed some⟩, inv.shown⟩
  · obtain ⟨-, state, report⟩ := run_benchmark_state lc d path card _
      (Option.ne_none_iff_exists'.mpr ⟨r, hr⟩)
    have inv := before.finish lc d path lines.ret card.turns
    have last : BenchState.Invariant card.turns.length o.state := by
      rw [show o.state = _ from state]
      exact inv.log _
    obtain rfl := Option.some.inj (hr.symm.trans report)
    exact last.ratioLine_report fat

/-- The counters of the sample run, which finds the one person: its report prints 100.00 as
recall and as precision. -/
theorem counters_at_every_loop_head_sample :
    let lines := count_csv_lines sampleCard.csv
    let start := ((BenchState.init (fun _ => 0) fun _ => ⟨0, 0, 0, 0, 0, 0⟩).log
      lines.trace).log [.opened .dir]
    let o := run_benchmark_on_sd_card .decimal sampleDetector dir_path sampleCard
      (.init (fun _ => 0) fun _ => ⟨0, 0, 0, 0, 0, 0⟩)
    (∀ front s, front <+: sampleCard.turns →
      Flow.run (BenchState.turn .decimal sampleDetector dir_path lines.ret) start front =
          .next s →
        0 ≤ s.gt_matched ∧ s.gt_matched = s.pred_matched ∧
        s.gt_matched ≤ min s.img_with_gt s.img_with_pred ∧
        (0 < s.bench_samples → 0 < s.bench_min_ms ∧ s.bench_min_ms ≤ s.bench_max_ms ∧
          s.bench_samples * s.bench_min_ms ≤ s.bench_sum_ms ∧
          s.bench_sum_ms ≤ s.bench_samples * s.bench_max_ms ∧ s.canvas ≠ none) ∧
        ∀ c ∈ s.canvas, BenchState.Shows c s) ∧
    ∃ r p q, o.report = some r ∧ r.recall_ratio = some p ∧ r.prec_ratio = some q ∧
      BenchState.Printed p o.state.gt_matched o.state.img_with_gt ∧
      BenchState.Printed q o.state.pred_matched o.state.img_with_pred := by
  obtain ⟨heads, -, reports⟩ := counters_at_every_loop_head .decimal sampleDetector dir_path
    sampleCard (fun _ => 0) (fun _ => ⟨0, 0, 0, 0, 0, 0⟩) (by decide)
  obtain ⟨r, report⟩ := Option.ne_none_iff_exists'.mp sampleCard_reached
  obtain ⟨ofGt, ofPred⟩ := reports r report
  obtain ⟨p, recall_ratio, shown⟩ := ofGt.printed (by decide +kernel)
  obtain ⟨q, prec_ratio, shown'⟩ := ofPred.printed (by decide +kernel)
  exact ⟨heads, r, p, q, report, recall_ratio, prec_ratio, shown, shown'⟩

end PeopleDetection
