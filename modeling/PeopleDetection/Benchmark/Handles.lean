import PeopleDetection.Benchmark.History
import PeopleDetection.GroundTruth.Numerals

/-!
# Handles

A run opens the directory once, an image in every turn, and the annotation file once for its
length and once for every image. Each open is followed by its close before the function goes
on to another object of the same kind, with one exception: if an image cannot be opened, the
run returns from inside the loop and leaves the directory open.
-/

namespace PeopleDetection

open Library

/-! ## Traces -/

/-- The object that an event is about. -/
def FsEvent.handle : FsEvent → Handle
  | .opened h => h
  | .openFailed h => h
  | .closed h => h

/-- The events of one object. -/
def onHandle (h : Handle) (trace : List FsEvent) : List FsEvent :=
  trace.filter (·.handle = h)

/-- Every successful open is followed by a close, and nothing else is closed. -/
inductive Balanced : List FsEvent → Prop
  | nil : Balanced []
  | failed {h : Handle} {rest : List FsEvent} : Balanced rest → Balanced (.openFailed h :: rest)
  | closed {h : Handle} {rest : List FsEvent} : Balanced rest →
      Balanced (.opened h :: .closed h :: rest)

/-- All handles that were opened have been closed exactly once, and no others. -/
def Disciplined (trace : List FsEvent) : Prop := ∀ h, Balanced (onHandle h trace)

theorem onHandle_append (h : Handle) (a b : List FsEvent) :
    onHandle h (a ++ b) = onHandle h a ++ onHandle h b := List.filter_append a b

theorem onHandle_of_ne {h : Handle} {e : FsEvent} (ne : e.handle ≠ h) : onHandle h [e] = [] :=
  List.filter_cons_of_neg (by simpa using ne)

theorem Balanced.append {a b : List FsEvent} (ha : Balanced a) (hb : Balanced b) :
    Balanced (a ++ b) := by
  induction ha with
  | nil => exact hb
  | failed _ ih => exact .failed ih
  | closed _ ih => exact .closed ih

theorem not_balanced_opened (h : Handle) : ¬ Balanced [.opened h] := nofun

theorem Disciplined.append {a b : List FsEvent} (ha : Disciplined a) (hb : Disciplined b) :
    Disciplined (a ++ b) := fun h => by
  rw [onHandle_append]
  exact (ha h).append (hb h)

/-- The events of a single object. -/
theorem disciplined_of_single {h : Handle} {events : List FsEvent}
    (single : ∀ e ∈ events, e.handle = h) (balanced : Balanced events) : Disciplined events := by
  intro h'
  by_cases same : h = h'
  · have all : onHandle h' events = events :=
      List.filter_eq_self.mpr fun e he => decide_eq_true ((single e he).trans same)
    rw [all]
    exact balanced
  · have none : onHandle h' events = [] := by
      apply List.filter_eq_nil_iff.mpr
      intro e he other
      exact same ((single e he).symm.trans (of_decide_eq_true other))
    rw [none]
    exact .nil

/-- An object that was opened and closed. -/
theorem disciplined_pair (h : Handle) : Disciplined [.opened h, .closed h] :=
  disciplined_of_single (h := h) (by simp [FsEvent.handle]) (.closed .nil)

/-- An object that could not be opened. -/
theorem disciplined_failed (h : Handle) : Disciplined [.openFailed h] :=
  disciplined_of_single (h := h) (by simp [FsEvent.handle]) (.failed .nil)

/-- The lookup closes the annotation file on every path. -/
theorem gt_find_settled {F : Type} [Zero F] (lc : Libc F) (csv : OpenResult) (filename : Bytes) :
    let trace := (gt_find_person_boxes_csv lc csv filename).trace
    Disciplined trace ∧ onHandle .dir trace = [] := by
  simp only [gt_find_person_boxes_csv]
  split
  · exact ⟨disciplined_failed .csvLookup, rfl⟩
  · split
    · exact ⟨disciplined_pair .csvLookup, rfl⟩
    · exact ⟨disciplined_pair .csvLookup, rfl⟩

theorem count_csv_lines_settled (csv : OpenResult) :
    Disciplined (count_csv_lines csv).trace ∧ onHandle .dir (count_csv_lines csv).trace = [] := by
  simp only [count_csv_lines]
  split
  · exact ⟨disciplined_failed .csvCount, rfl⟩
  · exact ⟨disciplined_pair .csvCount, rfl⟩

/-! ## The loop -/

/-- Every image before the end of the listing can be opened. -/
def OpensImages (path : Bytes) (turns : List Turn) : Prop :=
  ∀ t ∈ turns.takeWhile (fun t => ¬ t.Ends), t.isDir = false → ¬ (t.file path).ret < 0

section OpensImages

variable {path : Bytes} {t : Turn} {turns : List Turn}

theorem opensImages_cons_of_ends (h : t.Ends) : OpensImages path (t :: turns) := by
  intro u hu
  rw [List.takeWhile_cons_of_neg (by simpa using h)] at hu
  cases hu

theorem opensImages_cons (h : ¬ t.Ends) :
    OpensImages path (t :: turns) ↔
      (t.isDir = false → ¬ (t.file path).ret < 0) ∧ OpensImages path turns := by
  rw [OpensImages, List.takeWhile_cons_of_pos (by simpa using h), List.forall_mem_cons]
  rfl

end OpensImages

/-- The directory is open and everything else is settled. -/
structure OnlyDirOpen (trace : List FsEvent) : Prop where
  dir : onHandle .dir trace = [.opened .dir]
  others : ∀ h, h ≠ .dir → Balanced (onHandle h trace)

namespace OnlyDirOpen

variable {trace events : List FsEvent}

/-- The turns of the loop leave the directory open. -/
theorem append (dirOpen : OnlyDirOpen trace) (settled : Disciplined events)
    (other : onHandle .dir events = []) : OnlyDirOpen (trace ++ events) where
  dir := by rw [onHandle_append, dirOpen.dir, other, List.append_nil]
  others h ne := by
    rw [onHandle_append]
    exact (dirOpen.others h ne).append (settled h)

theorem not_disciplined (dirOpen : OnlyDirOpen trace) : ¬ Disciplined trace := by
  intro all
  have dir := all .dir
  rw [dirOpen.dir] at dir
  exact not_balanced_opened .dir dir

theorem closed (dirOpen : OnlyDirOpen trace) : Disciplined (trace ++ [.closed .dir]) := by
  intro h
  rw [onHandle_append]
  by_cases ne : h = .dir
  · subst ne
    rw [dirOpen.dir]
    exact .closed .nil
  · rw [onHandle_of_ne (Ne.symm ne), List.append_nil]
    exact dirOpen.others h ne

end OnlyDirOpen

namespace BenchState

variable {F : Type} [Zero F] [CFloat F] {lc : Libc F} {d : Detector F} {path : Bytes}
  {total : Int} {s : BenchState F} {t : Turn}

theorem trace_tally (s : BenchState F) (total : Int) : (s.tally total).trace = s.trace := by
  rw [tally_eq]

theorem trace_score (s : BenchState F) (gt : GtBoxes F) (preds : List DBox) :
    (s.score gt preds).trace = s.trace := by
  rw [score_eq]

omit [CFloat F] in
/-- An inference and a lookup are settled. -/
theorem onlyDirOpen_inferred (h : OnlyDirOpen s.trace) :
    OnlyDirOpen (s.inferred lc d path t).trace := by
  have image : OnlyDirOpen (s.trace ++ [.opened .image] ++ [.closed .image]) := by
    rw [List.append_assoc]
    exact h.append (disciplined_pair .image) rfl
  obtain ⟨settled, other⟩ := gt_find_settled lc t.csv t.name
  exact image.append settled other

variable (lc d path total) in
/-- The loop ends with the directory open: behind the listing if every image can be opened,
and by a return otherwise. -/
theorem run_onlyDirOpen (turns : List Turn) : ∀ s : BenchState F, OnlyDirOpen s.trace →
    match Flow.run (turn lc d path total) s turns with
    | .next s' => OpensImages path turns ∧ OnlyDirOpen s'.trace
    | .stop (.endOfDir _) s' => OpensImages path turns ∧ OnlyDirOpen s'.trace
    | .stop (.openError _) s' => ¬ OpensImages path turns ∧ OnlyDirOpen s'.trace := by
  induction turns with
  | nil =>
      intro s h
      exact ⟨fun t ht => (by cases ht), h⟩
  | cons t turns ih =>
      intro s h
      have step := turned lc d path total s t
      generalize hr : turn lc d path total s t = r at step
      cases step with
      | ends ends =>
          rw [Flow.run_cons_of_stop hr]
          exact ⟨opensImages_cons_of_ends ends, h⟩
      | listed goes dir =>
          rw [Flow.run_cons_of_next hr, opensImages_cons goes,
            and_iff_right_of_imp fun _ file => absurd dir (by rw [file]; decide)]
          exact ih _ (by rwa [trace_tally])
      | failed goes file failed =>
          rw [Flow.run_cons_of_stop hr, opensImages_cons goes]
          exact ⟨fun all => all.1 file failed, h.append (disciplined_failed _) rfl⟩
      | skipped goes file opened missing =>
          rw [Flow.run_cons_of_next hr, opensImages_cons goes,
            and_iff_right_of_imp fun _ _ => opened]
          exact ih _ (onlyDirOpen_inferred h)
      | scored goes file opened found =>
          rw [Flow.run_cons_of_next hr, opensImages_cons goes,
            and_iff_right_of_imp fun _ _ => opened]
          exact ih _ (by rw [trace_tally, trace_score]; exact onlyDirOpen_inferred h)

/-- The loop starts when the directory is open. -/
theorem onlyDirOpen_start (csv : OpenResult) :
    OnlyDirOpen ((count_csv_lines csv).trace ++ [.opened .dir]) := by
  obtain ⟨settled, other⟩ := count_csv_lines_settled csv
  refine ⟨by rw [onHandle_append, other]; rfl, fun h ne => ?_⟩
  rw [onHandle_append, onHandle_of_ne (Ne.symm ne), List.append_nil]
  exact settled h

end BenchState

/-! ## The run -/

/-- The annotation file cannot be opened, or it has no line. -/
theorem count_csv_lines_nonpos_iff (csv : OpenResult) :
    (count_csv_lines csv).ret ≤ 0 ↔ csv.ret < 0 ∨ LF ∉ csv.data := by
  by_cases failed : csv.ret < 0
  · have ret : (count_csv_lines csv).ret = csv.ret := by rw [count_csv_lines, if_pos failed]
    rw [ret]
    exact iff_of_true failed.le (Or.inl failed)
  · rw [count_csv_lines_ret failed, or_iff_right failed, ← List.count_eq_zero]
    omega

/-- A run closes what it opened exactly if no image fails to open, or if it does not come to
the images. -/
theorem handles_disciplined_iff {F : Type} [Zero F] [CFloat F] (lc : Libc F) (d : Detector F)
    (path : Bytes) (card : Card) (s : BenchState F) :
    Disciplined (run_benchmark_on_sd_card lc d path card { s with trace := [] }).state.trace ↔
      card.csv.ret < 0 ∨ LF ∉ card.csv.data ∨ card.opendir ≠ 0 ∨
        OpensImages path card.turns := by
  rw [← or_assoc, ← count_csv_lines_nonpos_iff, run_benchmark_on_sd_card]
  by_cases empty : (count_csv_lines card.csv).ret ≤ 0
  · simp only [if_pos empty]
    exact iff_of_true (count_csv_lines_settled _).1 (Or.inl empty)
  · simp only [if_neg empty]
    rw [or_iff_right empty]
    by_cases failed : card.opendir ≠ 0
    · simp only [if_pos failed]
      refine iff_of_true ?_ (Or.inl failed)
      exact (count_csv_lines_settled _).1.append (disciplined_failed _)
    · simp only [if_neg failed]
      rw [or_iff_right failed]
      have loop := BenchState.run_onlyDirOpen lc d path (count_csv_lines card.csv).ret card.turns
        ((({ s with trace := [] } : BenchState F).log (count_csv_lines card.csv).trace).log
          [.opened .dir]) (BenchState.onlyDirOpen_start card.csv)
      generalize Flow.run (BenchState.turn lc d path (count_csv_lines card.csv).ret) _
        card.turns = r at loop ⊢
      cases r with
      | next s' => exact iff_of_true loop.2.closed loop.1
      | stop e s' =>
          cases e with
          | endOfDir res => exact iff_of_true loop.2.closed loop.1
          | openError ret => exact iff_of_false loop.2.not_disciplined loop.1

/-- An annotation file with a line, and a directory with an image that cannot be opened. -/
def lockedCard : Card where
  csv := ⟨0, [LF]⟩
  opendir := 0
  turns := [{
    readdir := 0
    name := [98]
    isDir := false
    openImage := fun _ => ⟨-5, []⟩
    csv := ⟨0, [LF]⟩
    t0 := 0
    t1 := 1 }]

/-- The run returns the error and leaves the directory open. -/
theorem lockedCard_not_disciplined :
    let o := run_benchmark_on_sd_card .decimal ⟨fun _ => [], fun _ => by decide⟩ dir_path
      lockedCard (.init (fun _ => 0) fun _ => (⟨0, 0, 0, 0, 0, 0⟩ : OdPpOutBuffer ℚ))
    o.ret = -5 ∧ o.state.trace = [.opened .csvCount, .closed .csvCount, .opened .dir,
      .openFailed .image] ∧ ¬ Disciplined o.state.trace := by
  intro o
  have trace : o.state.trace = [.opened .csvCount, .closed .csvCount, .opened .dir,
      .openFailed .image] := by decide +kernel
  refine ⟨by decide +kernel, trace, fun all => ?_⟩
  have dir := all .dir
  rw [trace] at dir
  exact not_balanced_opened .dir dir

end PeopleDetection
