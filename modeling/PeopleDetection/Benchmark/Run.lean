import PeopleDetection.GroundTruth.Reader
import PeopleDetection.Model

/-!
# The benchmark run

`run_benchmark_on_sd_card` walks through a directory of images. It runs the network on
every file, looks up the ground truth of the file, and keeps ten counters, which it
shows on the display and reports at the end.

A `Turn` holds what the outside world answers during one turn of the loop: the directory
entry, the file behind a path, the annotation file at that moment, and the clock. A
directory is the list of its turns; its end is the end of the listing. The counters are
integers: `Invariant` bounds them by the number of turns, and a FAT directory has at most
65536 entries. The 32-bit arithmetic of the report is explicit.
-/

namespace PeopleDetection

open Library

/-- `NN_HEIGHT * NN_WIDTH * NN_BPP`. -/
abbrev NN_IN_LEN : Nat := 150528

/-- `"/SD:/BIN_224"`, the directory of the benchmark. -/
def dir_path : Bytes := [SLASH, 83, 68, 58, SLASH, 66, 73, 78, 95, 50, 50, 52]

/-- The detector: what post-processing finds in the image in a buffer. -/
structure Detector (F : Type) where
  detect : (Nat → UInt8) → List (OdPpOutBuffer F)
  length_le : ∀ image, (detect image).length ≤ MAX_BOXES_LIMIT

/-- The answers of the outside world during one turn of the loop. -/
structure Turn where
  /-- The result of `fs_readdir`, and the entry it stores. -/
  readdir : Int
  name : Bytes
  isDir : Bool
  /-- The outcome of opening a path for the image. -/
  openImage : Bytes → OpenResult
  /-- The outcome of opening the annotation file for the lookup. -/
  csv : OpenResult
  /-- `k_uptime_get_32()` before and after the inference. -/
  t0 : UInt32
  t1 : UInt32

/-- The answers during a whole run. -/
structure Card where
  csv : OpenResult
  opendir : Int
  turns : List Turn

/-- The numbers that `decorate_benchmark` prints. -/
structure Display (F : Type) where
  percent : F
  done : Int
  total : Int
  last : Int
  fps : Int
  avg : Int
  min : Int
  max : Int
  gt : Int
  pred : Int
  matchGT : Int
  matchPred : Int

/-- The variables of the run, and the globals it uses. -/
structure BenchState (F : Type) where
  count : Int
  sd_vbuf : Nat → UInt8
  nn : NnState F
  img_with_gt : Int
  img_with_pred : Int
  gt_matched : Int
  pred_matched : Int
  bench_done : Int
  bench_errors : Int
  bench_last_ms : Int
  bench_min_ms : Int
  bench_max_ms : Int
  bench_sum_ms : Int
  bench_samples : Int
  canvas : Option (Display F)
  trace : List FsEvent

/-- The state before the run: static initializers, after `nn_init`. -/
def BenchState.init {F : Type} (sd_vbuf : Nat → UInt8) (detections : Nat → OdPpOutBuffer F) :
    BenchState F where
  count := 0
  sd_vbuf := sd_vbuf
  nn := ⟨detections, 0, 0⟩
  img_with_gt := 0
  img_with_pred := 0
  gt_matched := 0
  pred_matched := 0
  bench_done := 0
  bench_errors := 0
  bench_last_ms := 0
  bench_min_ms := INT_MAX
  bench_max_ms := 0
  bench_sum_ms := 0
  bench_samples := 0
  canvas := none
  trace := []

/-- Why the loop was left: `break` with the last `res`, or `return ret`. -/
inductive Exit where
  | endOfDir (res : Int)
  | openError (ret : Int)
  deriving DecidableEq

/-- The two report lines; a ratio is its two printed numbers. -/
structure Report where
  recall_ratio : Option (Int × Int)
  prec_ratio : Option (Int × Int)

/-- The result of the run. Without `END OF BENCHMARK` there is no report. -/
structure Outcome (F : Type) where
  ret : Int
  state : BenchState F
  report : Option Report

variable {F : Type} [Zero F] [CFloat F]

open CFloat

/-- `snprintf(full_path, 256, "%s/%s", path, entry.name)`. -/
def full_path (path name : Bytes) : Bytes := (path ++ SLASH :: name).take 255

/-- `fs_read` of one image into the buffer. Bytes that are not delivered stay. -/
def fill (buffer : Nat → UInt8) (data : Bytes) : Nat → UInt8 :=
  fun i => (data.take NN_IN_LEN)[i]?.getD (buffer i)

/-- `xywh_to_xyxy(gt.xywh[gi][0], …, gt.xywh[gi][3])`. -/
def GtBoxes.corners (gt : GtBoxes F) (gi : Nat) : BoxXyxy F :=
  xywh_to_xyxy (gt.xywh gi 0) (gt.xywh gi 1) (gt.xywh gi 2) (gt.xywh gi 3)

/-- The inner loop over the predicted boxes. -/
def searchPreds (preds : List DBox) (g : BoxXyxy F) (matched : Bool) : Bool :=
  (Flow.run (fun matched p =>
    if overlaps g (dbox_to_xyxy p) then Flow.stop () true else .next matched)
    matched preds).state

/-- The outer loop over the ground-truth boxes, left once `matched` is set. -/
def searchMatch (gt : GtBoxes F) (preds : List DBox) : Bool :=
  (Flow.run (fun matched gi =>
    if matched then Flow.stop () matched
    else .next (searchPreds preds (gt.corners gi) matched))
    false (List.range gt.count.toNat)).state

namespace BenchState

/-- The numbers on the display. -/
def decorate_benchmark (s : BenchState F) (bench_total : Int) (percent : F) : Display F where
  percent := percent
  done := s.bench_done
  total := bench_total
  last := s.bench_last_ms
  fps := if s.bench_last_ms > 0 then Int.tdiv 1000 s.bench_last_ms else 0
  avg := if s.bench_samples > 0 then i32 (Int.tdiv s.bench_sum_ms s.bench_samples) else 0
  min := if s.bench_min_ms = INT_MAX then 0 else s.bench_min_ms
  max := s.bench_max_ms
  gt := s.img_with_gt
  pred := s.img_with_pred
  matchGT := s.gt_matched
  matchPred := s.pred_matched

def log (s : BenchState F) (events : List FsEvent) : BenchState F :=
  { s with trace := s.trace ++ events }

/-- Reading an image and running the network on it. -/
def infer (s : BenchState F) (d : Detector F) (data : Bytes) (t0 t1 : UInt32) : BenchState F :=
  let image := fill s.sd_vbuf data
  { s with sd_vbuf := image, nn := run_nn_from_sd_card (d.detect image) t0 t1 s.nn }

/-- Counting the boxes of an image. -/
def score (s : BenchState F) (gt : GtBoxes F) (preds : List DBox) : BenchState F :=
  let has_pred := decide (0 < preds.length)
  let has_gt := decide (gt.count > 0)
  let s := if has_gt then { s with img_with_gt := s.img_with_gt + 1 } else s
  let s := if has_pred then { s with img_with_pred := s.img_with_pred + 1 } else s
  let matched := has_gt && has_pred && searchMatch gt preds
  if matched then { s with gt_matched := s.gt_matched + 1, pred_matched := s.pred_matched + 1 }
  else s

/-- The latency statistics. -/
def sample (s : BenchState F) : BenchState F :=
  let s := { s with bench_last_ms := s.nn.latest_inference_time }
  if s.bench_last_ms > 0 then
    { s with
      bench_min_ms := min s.bench_min_ms s.bench_last_ms
      bench_max_ms := max s.bench_max_ms s.bench_last_ms
      bench_sum_ms := s.bench_sum_ms + s.bench_last_ms
      bench_samples := s.bench_samples + 1 }
  else { s with bench_errors := s.bench_errors + 1 }

/-- The bottom of the loop body. -/
def tally (s : BenchState F) (bench_total : Int) : BenchState F :=
  let s := { s with count := s.count + 1 }
  let s := s.sample
  let s := { s with bench_done := s.count }
  let percent := ofInt 100 * ofInt s.count / ofInt bench_total
  { s with canvas := some (s.decorate_benchmark bench_total percent) }

/-- One turn of the loop. -/
def turn (lc : Libc F) (d : Detector F) (path : Bytes) (bench_total : Int) (s : BenchState F)
    (t : Turn) : Flow (BenchState F) Exit :=
  if t.readdir ≠ 0 ∨ t.name = [] then .stop (.endOfDir t.readdir) s
  else if t.isDir then .next (s.tally bench_total)
  else
    let file := t.openImage (full_path path t.name)
    if file.ret < 0 then .stop (.openError file.ret) (s.log [.openFailed .image])
    else
      let s := (s.log [.opened .image]).infer d file.data t.t0 t.t1
      let s := s.log [.closed .image]
      let gr := gt_find_person_boxes_csv lc t.csv t.name
      let s := s.log gr.trace
      if gr.ret < 0 then .next s
      else .next ((s.score gr.out (model_get_boxes s.nn MAX_BOXES_LIMIT)).tally bench_total)

/-- `(matched * 100) / total` and `((matched * 10000) / total) % 100`. -/
def ratio (matched total : Int) : Int × Int :=
  (Int.tdiv (i32 (matched * 100)) total, Int.tmod (Int.tdiv (i32 (matched * 10000)) total) 100)

def report (s : BenchState F) : Report where
  recall_ratio := if s.img_with_gt ≠ 0 then some (ratio s.gt_matched s.img_with_gt) else none
  prec_ratio := if s.img_with_pred ≠ 0 then some (ratio s.pred_matched s.img_with_pred) else none

end BenchState

/-- `run_benchmark_on_sd_card`. -/
def run_benchmark_on_sd_card (lc : Libc F) (d : Detector F) (path : Bytes) (card : Card)
    (s : BenchState F) : Outcome F :=
  let lines := count_csv_lines card.csv
  let s := s.log lines.trace
  if lines.ret ≤ 0 then { ret := 0, state := s, report := none }
  else if card.opendir ≠ 0 then
    { ret := card.opendir, state := s.log [.openFailed .dir], report := none }
  else
    let s := s.log [.opened .dir]
    match Flow.run (BenchState.turn lc d path lines.ret) s card.turns with
    | .stop (.openError ret) s => { ret := ret, state := s, report := none }
    | .stop (.endOfDir res) s =>
        { ret := if res = 0 then s.count else res
          state := s.log [.closed .dir], report := some s.report }
    | .next s => { ret := s.count, state := s.log [.closed .dir], report := some s.report }

end PeopleDetection
