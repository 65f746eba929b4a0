import Mathlib.Data.List.Count
import Mathlib.Data.List.MinMax
import PeopleDetection.Benchmark.Run
import PeopleDetection.GroundTruth.Records

/-!
# What a run does

`Turned` lists what one turn of the loop can do. `executed` is the history of a run: the
inferences in the order of their execution, each with the contents of the image buffer
and the annotation file of its turn. Every counter of the program is a count over this
history.
-/

namespace PeopleDetection

open Library

/-- An execution of `run_nn_from_sd_card`. -/
structure Inference where
  name : Bytes
  image : Nat → UInt8
  csv : OpenResult
  latency : Int

namespace Inference

variable {F : Type} [Zero F] [CFloat F] (lc : Libc F) (d : Detector F) (i : Inference)

/-- The lookup of the ground truth. -/
def lookup : Lookup F := gt_find_person_boxes_csv lc i.csv i.name

/-- The predicted boxes. -/
def preds : List DBox := (d.detect i.image).map model_detection_to_box

/-- The lookup succeeds. -/
def Found : Prop := ¬ (i.lookup lc).ret < 0

/-- The annotation file has a record with boxes. -/
def HasGt : Prop := 0 < (i.lookup lc).out.count

/-- The detector returns a box. -/
def HasPred : Prop := i.preds d ≠ []

/-- Some ground-truth box and some predicted box overlap. -/
def Matched : Prop :=
  ∃ gi < (i.lookup lc).out.count.toNat, ∃ p ∈ i.preds d,
    overlaps ((i.lookup lc).out.corners gi) (dbox_to_xyxy p)

instance : Decidable (i.Found lc) := inferInstanceAs (Decidable (¬ _))
instance : Decidable (i.HasGt lc) := inferInstanceAs (Decidable (_ < _))
instance : Decidable (i.HasPred d) := inferInstanceAs (Decidable (_ ≠ _))
instance : Decidable (i.Matched lc d) := inferInstanceAs (Decidable (∃ gi < _, ∃ p ∈ _, _))

variable {lc d i}

omit [CFloat F] in
theorem hasGt_iff : i.HasGt lc ↔ 0 < (i.lookup lc).out.count := Iff.rfl
theorem hasPred_iff : i.HasPred d ↔ i.preds d ≠ [] := Iff.rfl

omit [CFloat F] in
theorem HasGt.found (h : i.HasGt lc) : i.Found lc := by
  intro failed
  rw [HasGt, lookup, gt_find_count_of_failed lc failed] at h
  exact lt_irrefl 0 h

theorem Matched.hasGt (h : i.Matched lc d) : i.HasGt lc := by
  obtain ⟨gi, hgi, -⟩ := h
  rw [HasGt]
  omega

theorem Matched.hasPred (h : i.Matched lc d) : i.HasPred d := by
  obtain ⟨_, _, p, hp, _⟩ := h
  exact List.ne_nil_of_mem hp

end Inference

/-! ## One turn -/

/-- The entry ends the listing. -/
def Turn.Ends (t : Turn) : Prop := t.readdir ≠ 0 ∨ t.name = []

instance (t : Turn) : Decidable t.Ends := inferInstanceAs (Decidable (_ ∨ _))

/-- The file that a turn opens. -/
def Turn.file (path : Bytes) (t : Turn) : OpenResult := t.openImage (full_path path t.name)

/-- The latency that a turn measures. -/
def Turn.latency (t : Turn) : Int := i32 (t.t1 - t.t0).toNat

theorem Turn.latency_le (t : Turn) : t.latency ≤ INT_MAX := by
  rw [Turn.latency]
  exact (i32_mem _).2

/-- The inference of a turn. -/
def Turn.inference (path : Bytes) (buffer : Nat → UInt8) (t : Turn) : Inference where
  name := t.name
  image := fill buffer (t.file path).data
  csv := t.csv
  latency := t.latency

@[simp] theorem Turn.inference_latency (path : Bytes) (buffer : Nat → UInt8) (t : Turn) :
    (t.inference path buffer).latency = t.latency := by
  rw [Turn.inference]

variable {F : Type} [Zero F] [CFloat F]

section Search

variable {preds : List DBox} {gt : GtBoxes F}

theorem searchPreds_eq (g : BoxXyxy F) (matched : Bool) :
    searchPreds preds g matched =
      (matched || decide (∃ p ∈ preds, overlaps g (dbox_to_xyxy p))) := by
  induction preds with
  | nil => simp [searchPreds]
  | cons p preds ih =>
      by_cases hp : overlaps g (dbox_to_xyxy p)
      · rw [searchPreds, Flow.run_cons_of_stop (e := ()) (t := true) (if_pos hp)]
        simp [hp]
      · rw [searchPreds, Flow.run_cons_of_next (t := matched) (if_neg hp)]
        simpa [searchPreds, hp] using ih

/-- The double loop finds an overlapping pair exactly if there is one. -/
theorem searchMatch_eq :
    searchMatch gt preds = decide (∃ gi < gt.count.toNat, ∃ p ∈ preds,
      overlaps (gt.corners gi) (dbox_to_xyxy p)) := by
  have loop : ∀ (items : List Nat) (matched : Bool),
      (Flow.run (fun matched gi =>
        if matched then Flow.stop () matched
        else .next (searchPreds preds (gt.corners gi) matched)) matched items).state =
      (matched || decide (∃ gi ∈ items, ∃ p ∈ preds,
        overlaps (gt.corners gi) (dbox_to_xyxy p))) := by
    intro items
    induction items with
    | nil => simp
    | cons gi items ih =>
        intro matched
        cases matched with
        | true =>
            rw [Flow.run_cons_of_stop (e := ()) (t := true) (if_pos rfl)]
            simp
        | false =>
            rw [Flow.run_cons_of_next (if_neg (by decide)), ih, searchPreds_eq]
            simp
  rw [searchMatch, loop]
  simp

end Search

namespace BenchState

variable {s : BenchState F} {gt : GtBoxes F} {preds : List DBox} {total : Int}

/-- What `score` adds to each counter. -/
theorem score_eq :
    s.score gt preds = { s with
      img_with_gt := s.img_with_gt + if 0 < gt.count then 1 else 0
      img_with_pred := s.img_with_pred + if preds ≠ [] then 1 else 0
      gt_matched := s.gt_matched + if searchMatch gt preds then 1 else 0
      pred_matched := s.pred_matched + if searchMatch gt preds then 1 else 0 } := by
  have some_gt : searchMatch gt preds = true → 0 < gt.count := by
    rw [searchMatch_eq, decide_eq_true_eq]
    rintro ⟨gi, hgi, -⟩
    omega
  have some_pred : searchMatch gt preds = true → preds ≠ [] := by
    rw [searchMatch_eq, decide_eq_true_eq]
    rintro ⟨gi, -, p, hp, -⟩
    exact List.ne_nil_of_mem hp
  simp only [score, List.length_pos_iff, gt_iff_lt, decide_eq_true_eq, Bool.and_eq_true]
  cases hm : searchMatch gt preds with
  | true => simp [some_gt hm, some_pred hm]
  | false => by_cases hg : 0 < gt.count <;> by_cases hp : preds ≠ [] <;> simp [hg, hp]

@[simp] theorem score_img_with_gt : (s.score gt preds).img_with_gt =
    s.img_with_gt + if 0 < gt.count then 1 else 0 := by rw [score_eq]
@[simp] theorem score_img_with_pred : (s.score gt preds).img_with_pred =
    s.img_with_pred + if preds ≠ [] then 1 else 0 := by rw [score_eq]
@[simp] theorem score_gt_matched : (s.score gt preds).gt_matched =
    s.gt_matched + if searchMatch gt preds then 1 else 0 := by rw [score_eq]
@[simp] theorem score_pred_matched : (s.score gt preds).pred_matched =
    s.pred_matched + if searchMatch gt preds then 1 else 0 := by rw [score_eq]
@[simp] theorem score_sd_vbuf : (s.score gt preds).sd_vbuf = s.sd_vbuf := by rw [score_eq]
@[simp] theorem score_nn : (s.score gt preds).nn = s.nn := by rw [score_eq]

/-- What `tally` does, for the latency that it finds. -/
theorem tally_eq :
    s.tally total = { s with
      count := s.count + 1
      bench_done := s.count + 1
      bench_last_ms := s.nn.latest_inference_time
      bench_min_ms := if 0 < s.nn.latest_inference_time
        then min s.bench_min_ms s.nn.latest_inference_time else s.bench_min_ms
      bench_max_ms := if 0 < s.nn.latest_inference_time
        then max s.bench_max_ms s.nn.latest_inference_time else s.bench_max_ms
      bench_sum_ms := s.bench_sum_ms + if 0 < s.nn.latest_inference_time
        then s.nn.latest_inference_time else 0
      bench_samples := s.bench_samples + if 0 < s.nn.latest_inference_time then 1 else 0
      bench_errors := s.bench_errors + if 0 < s.nn.latest_inference_time then 0 else 1
      canvas := (s.tally total).canvas } := by
  by_cases h : 0 < s.nn.latest_inference_time <;> simp [tally, sample, h]

@[simp] theorem tally_sd_vbuf : (s.tally total).sd_vbuf = s.sd_vbuf := by rw [tally_eq]
@[simp] theorem tally_nn : (s.tally total).nn = s.nn := by rw [tally_eq]
@[simp] theorem tally_img_with_gt : (s.tally total).img_with_gt = s.img_with_gt := by
  rw [tally_eq]
@[simp] theorem tally_img_with_pred : (s.tally total).img_with_pred = s.img_with_pred := by
  rw [tally_eq]
@[simp] theorem tally_gt_matched : (s.tally total).gt_matched = s.gt_matched := by rw [tally_eq]
@[simp] theorem tally_pred_matched : (s.tally total).pred_matched = s.pred_matched := by
  rw [tally_eq]

/-- The state behind the inference and the lookup of a turn. -/
def inferred (lc : Libc F) (d : Detector F) (path : Bytes) (s : BenchState F) (t : Turn) :
    BenchState F :=
  (((s.log [.opened .image]).infer d (t.file path).data t.t0 t.t1).log [.closed .image]).log
    ((t.inference path s.sd_vbuf).lookup lc).trace

/-- The results of one turn. -/
inductive Turned (lc : Libc F) (d : Detector F) (path : Bytes) (total : Int)
    (s : BenchState F) (t : Turn) : Flow (BenchState F) Exit → Prop where
  | ends : t.Ends → Turned lc d path total s t (.stop (.endOfDir t.readdir) s)
  | listed : ¬ t.Ends → t.isDir = true → Turned lc d path total s t (.next (s.tally total))
  | failed : ¬ t.Ends → t.isDir = false → (t.file path).ret < 0 →
      Turned lc d path total s t
        (.stop (.openError (t.file path).ret) (s.log [.openFailed .image]))
  | skipped : ¬ t.Ends → t.isDir = false → ¬ (t.file path).ret < 0 →
      ¬ (t.inference path s.sd_vbuf).Found lc →
      Turned lc d path total s t (.next (s.inferred lc d path t))
  | scored : ¬ t.Ends → t.isDir = false → ¬ (t.file path).ret < 0 →
      (t.inference path s.sd_vbuf).Found lc →
      Turned lc d path total s t
        (.next (((s.inferred lc d path t).score ((t.inference path s.sd_vbuf).lookup lc).out
          ((t.inference path s.sd_vbuf).preds d)).tally total))

variable {lc : Libc F} {d : Detector F} {path : Bytes} {t : Turn}

section Inferred

omit [CFloat F]

@[simp] theorem inferred_sd_vbuf :
    (s.inferred lc d path t).sd_vbuf = (t.inference path s.sd_vbuf).image := rfl
@[simp] theorem inferred_latest_inference_time :
    (s.inferred lc d path t).nn.latest_inference_time = t.latency := rfl
@[simp] theorem inferred_img_with_gt :
    (s.inferred lc d path t).img_with_gt = s.img_with_gt := rfl
@[simp] theorem inferred_img_with_pred :
    (s.inferred lc d path t).img_with_pred = s.img_with_pred := rfl
@[simp] theorem inferred_gt_matched :
    (s.inferred lc d path t).gt_matched = s.gt_matched := rfl
@[simp] theorem inferred_pred_matched :
    (s.inferred lc d path t).pred_matched = s.pred_matched := rfl

end Inferred

/-- The predictions that are scored are those of the turn's inference. -/
theorem model_get_boxes_inferred :
    model_get_boxes (s.inferred lc d path t).nn MAX_BOXES_LIMIT =
      (t.inference path s.sd_vbuf).preds d :=
  model_get_boxes_run_nn t.t0 t.t1 s.nn (d.length_le _)

theorem turned (lc : Libc F) (d : Detector F) (path : Bytes) (total : Int) (s : BenchState F)
    (t : Turn) : Turned lc d path total s t (turn lc d path total s t) := by
  by_cases ends : t.Ends
  · rw [turn, if_pos (show t.readdir ≠ 0 ∨ t.name = [] from ends)]
    exact .ends ends
  · rw [turn, if_neg (show ¬ (t.readdir ≠ 0 ∨ t.name = []) from ends)]
    by_cases dir : t.isDir = true
    · rw [if_pos dir]
      exact .listed ends dir
    · have file : t.isDir = false := by simpa using dir
      rw [if_neg dir]
      by_cases failed : (t.file path).ret < 0
      · have failed' := failed
        rw [Turn.file] at failed'
        simp only [if_pos failed']
        exact .failed ends file failed
      · have opened := failed
        rw [Turn.file] at opened
        simp only [if_neg opened]
        by_cases found : (t.inference path s.sd_vbuf).Found lc
        · have scored : Turned lc d path total s t _ := .scored ends file failed found
          rw [← model_get_boxes_inferred] at scored
          rw [if_neg (show ¬ (gt_find_person_boxes_csv lc t.csv t.name).ret < 0 from found)]
          exact scored
        · rw [if_pos (show (gt_find_person_boxes_csv lc t.csv t.name).ret < 0 from
            not_not.mp found)]
          exact .skipped ends file failed found

end BenchState

/-! ## The history of a run -/

/-- The inferences of a run that starts with the given contents of the buffer. -/
def executed (path : Bytes) : (Nat → UInt8) → List Turn → List Inference
  | _, [] => []
  | buffer, t :: ts =>
      if t.Ends then []
      else if t.isDir then executed path buffer ts
      else if (t.file path).ret < 0 then []
      else t.inference path buffer :: executed path (t.inference path buffer).image ts

section Executed

variable {path : Bytes} {buffer : Nat → UInt8} {t : Turn} {ts : List Turn}

theorem executed_cons_of_ends (h : t.Ends) : executed path buffer (t :: ts) = [] := by
  rw [executed, if_pos h]

theorem executed_cons_of_dir (h : ¬ t.Ends) (dir : t.isDir = true) :
    executed path buffer (t :: ts) = executed path buffer ts := by
  rw [executed, if_neg h, if_pos dir]

theorem executed_cons_of_failed (h : ¬ t.Ends) (file : t.isDir = false)
    (failed : (t.file path).ret < 0) : executed path buffer (t :: ts) = [] := by
  simp [executed, h, file, failed]

theorem executed_cons_of_file (h : ¬ t.Ends) (file : t.isDir = false)
    (opened : ¬ (t.file path).ret < 0) :
    executed path buffer (t :: ts) =
      t.inference path buffer :: executed path (t.inference path buffer).image ts := by
  simp only [executed, h, file, opened, if_false, Bool.false_eq_true]

end Executed

namespace BenchState

variable {lc : Libc F} {d : Detector F} {path : Bytes} {total : Int}

/-- The state in which the loop ends. -/
def finish (lc : Libc F) (d : Detector F) (path : Bytes) (total : Int) (s : BenchState F)
    (turns : List Turn) : BenchState F :=
  (Flow.run (turn lc d path total) s turns).state

/-- The detection counters after a run, from any state: each one has grown by the number
of its inferences. -/
theorem detection_counters (lc : Libc F) (d : Detector F) (path : Bytes) (total : Int)
    (s : BenchState F) (turns : List Turn) :
    let s' := s.finish lc d path total turns
    let history := executed path s.sd_vbuf turns
    s'.img_with_gt = s.img_with_gt + history.countP (·.HasGt lc) ∧
    s'.img_with_pred = s.img_with_pred + history.countP (fun i => i.Found lc ∧ i.HasPred d) ∧
    s'.gt_matched = s.gt_matched + history.countP (·.Matched lc d) ∧
    s'.pred_matched = s.pred_matched + history.countP (·.Matched lc d) := by
  induction turns generalizing s with
  | nil => simp [finish, executed]
  | cons t turns ih =>
      have step := turned lc d path total s t
      generalize hr : turn lc d path total s t = r at step
      cases step with
      | ends h =>
          rw [finish, Flow.run_cons_of_stop hr, executed_cons_of_ends h]
          simp
      | listed h dir =>
          rw [finish, Flow.run_cons_of_next hr, ← finish, executed_cons_of_dir h dir]
          simpa using ih (s.tally total)
      | failed h file failed =>
          rw [finish, Flow.run_cons_of_stop hr, executed_cons_of_failed h file failed]
          simp [log]
      | skipped h file opened missing =>
          rw [finish, Flow.run_cons_of_next hr, ← finish, executed_cons_of_file h file opened]
          have noGt : ¬ (t.inference path s.sd_vbuf).HasGt lc := fun h => missing h.found
          have noMatch : ¬ (t.inference path s.sd_vbuf).Matched lc d := fun h => noGt h.hasGt
          simpa [missing, noGt, noMatch] using ih (s.inferred lc d path t)
      | scored h file opened found =>
          rw [finish, Flow.run_cons_of_next hr, ← finish, executed_cons_of_file h file opened]
          have rest := ih (((s.inferred lc d path t).score
            ((t.inference path s.sd_vbuf).lookup lc).out
            ((t.inference path s.sd_vbuf).preds d)).tally total)
          have hit : searchMatch ((t.inference path s.sd_vbuf).lookup lc).out
              ((t.inference path s.sd_vbuf).preds d) =
                decide ((t.inference path s.sd_vbuf).Matched lc d) := searchMatch_eq
          simp only [tally_img_with_gt, tally_img_with_pred, tally_gt_matched,
            tally_pred_matched, tally_sd_vbuf, score_img_with_gt, score_img_with_pred,
            score_gt_matched, score_pred_matched, score_sd_vbuf, inferred_img_with_gt,
            inferred_img_with_pred, inferred_gt_matched, inferred_pred_matched,
            inferred_sd_vbuf, hit, decide_eq_true_eq, ← Inference.hasGt_iff,
            ← Inference.hasPred_iff] at rest
          simp only [List.countP_cons, found, true_and, decide_eq_true_eq, Nat.cast_add,
            Nat.cast_ite, Nat.cast_one, Nat.cast_zero]
          obtain ⟨gt, pred, matchGt, matchPred⟩ := rest
          exact ⟨by omega, by omega, by omega, by omega⟩

end BenchState

end PeopleDetection
