import PeopleDetection.GroundTruth.Numerals
import PeopleDetection.GroundTruth.Records

/-!
# The reader against the record format

`reference` treats every piece between newlines as a line, however long. The reader
differs from it in three ways. A line longer than the buffer is cut to 4095 bytes, as
its comment says. The bytes behind the cut are then processed as if they were lines of
their own, and a last line without a newline is not processed at all.

The theorem below states what the reader does apart from the latter two. `Decides` says
that neither comes up before a line is found: then the reader is the format, applied to
lines cut to the buffer. On lines that fit the buffer and end in a newline it is the
format itself.
-/

namespace PeopleDetection

open Library

variable {F : Type}

/-- Only the lines about the requested file matter. -/
theorem answer_congr [Zero F] (lc : Libc F) {filename : Bytes} {ls ls' : List Bytes}
    (same : ls.filter (fun l => namedFile l = some filename) =
      ls'.filter (fun l => namedFile l = some filename)) :
    answer lc ls filename = answer lc ls' filename := by
  simp only [answer, ← List.head?_filter, same]

section Silent

variable {filename : Bytes}

/-- None of the lines is about the file. -/
def Silent (filename : Bytes) (ls : List Bytes) : Prop :=
  ∀ l ∈ ls, namedFile l ≠ some filename

theorem Silent.filter_eq_nil {ls : List Bytes} (h : Silent filename ls) :
    ls.filter (fun l => namedFile l = some filename) = [] := by
  rw [List.filter_eq_nil_iff]
  exact fun l hl => by simpa using h l hl

/-- If the later pieces of the lines are silent, only the cut lines speak. -/
theorem filter_flatMap_chunks {n : Nat} {ls : List Bytes}
    (tails : ∀ l ∈ ls, Silent filename (chunks n l).tail) :
    (ls.flatMap (chunks n)).filter (fun l => namedFile l = some filename) =
      (ls.map (List.take n)).filter (fun l => namedFile l = some filename) := by
  induction ls with
  | nil => rfl
  | cons l ls ih =>
      rw [List.flatMap_cons, List.filter_append, chunks_eq_take_cons_tail, List.map_cons,
        List.filter_cons, (tails l (by simp)).filter_eq_nil,
        ih fun l' hl' => tails l' (List.mem_cons_of_mem _ hl'), List.filter_cons]
      split <;> rfl

end Silent

/-! ## The pieces of the lines -/

/-- The pieces of the lines of a file that the reader processes. The last line has no newline
to end it. -/
def processed : List Bytes → List Bytes
  | [] => []
  | [last] => (chunks (LINE_SIZE - 1) last).dropLast
  | line :: next :: lines => chunks (LINE_SIZE - 1) line ++ processed (next :: lines)

theorem processed_append_singleton (init : List Bytes) (last : Bytes) :
    processed (init ++ [last]) =
      init.flatMap (chunks (LINE_SIZE - 1)) ++ (chunks (LINE_SIZE - 1) last).dropLast := by
  induction init with
  | nil => rfl
  | cons line init ih =>
      have more : init ++ [last] ≠ [] := by simp
      obtain ⟨next, lines, rest⟩ := List.exists_cons_of_ne_nil more
      rw [List.cons_append, rest, processed, ← rest, ih, List.flatMap_cons, List.append_assoc]

theorem records_eq_processed (content : Bytes) :
    records content = processed (fileLines content) := by
  obtain ⟨init, last, split, join, cleanLast, cleanInit⟩ := exists_splitOn_eq LF content
  rw [fileLines, split, processed_append_singleton, join, records_flatMap_append init cleanInit,
    records, recordsFrom_of_not_mem cleanLast (Nat.zero_le _), List.nil_append]

/-- A lookup is decided by the beginning of a line: until then no piece behind a cut is about
the file, and it is not an unterminated line that fits the buffer. -/
def Decides (filename : Bytes) : List Bytes → Prop
  | [] => True
  | [last] =>
      if last.length ≤ LINE_SIZE - 1 then namedFile last ≠ some filename
      else namedFile (last.take (LINE_SIZE - 1)) = some filename ∨
        Silent filename (chunks (LINE_SIZE - 1) last).tail.dropLast
  | line :: next :: lines =>
      namedFile (line.take (LINE_SIZE - 1)) = some filename ∨
        Silent filename (chunks (LINE_SIZE - 1) line).tail ∧ Decides filename (next :: lines)

section Decides

variable {filename : Bytes} {lines : List Bytes}

theorem Silent.find?_append {front back : List Bytes} (h : Silent filename front) :
    (front ++ back).find? (fun l => namedFile l = some filename) =
      back.find? (fun l => namedFile l = some filename) := by
  have none : front.find? (fun l => namedFile l = some filename) = none :=
    List.find?_eq_none.mpr fun l hl => by simpa using h l hl
  rw [List.find?_append, none, Option.none_or]

/-- Then the first piece about the file is the first cut line about it. -/
theorem Decides.find?_eq (h : Decides filename lines) :
    (processed lines).find? (fun l => namedFile l = some filename) =
      (lines.map (List.take (LINE_SIZE - 1))).find? (fun l => namedFile l = some filename) := by
  induction lines with
  | nil => rfl
  | cons line lines ih =>
      by_cases named : namedFile (line.take (LINE_SIZE - 1)) = some filename
      · -- the line decides, wherever it is cut
        have first : ∃ rest, processed (line :: lines) = line.take (LINE_SIZE - 1) :: rest := by
          cases lines with
          | cons next lines =>
              rw [processed, chunks_eq_take_cons_tail]
              exact ⟨_, rfl⟩
          | nil =>
              have long : ¬ line.length ≤ LINE_SIZE - 1 := by
                intro fits
                rw [Decides, if_pos fits] at h
                rw [List.take_of_length_le fits] at named
                exact h named
              exact ⟨_, dropLast_chunks_of_lt (Nat.not_le.mp long)⟩
        obtain ⟨rest, first⟩ := first
        rw [first, List.map_cons, List.find?_cons_of_pos (by simpa using named),
          List.find?_cons_of_pos (by simpa using named)]
      · rw [List.map_cons, List.find?_cons_of_neg (by simpa using named)]
        cases lines with
        | cons next lines =>
            obtain ⟨tail, later⟩ := h.resolve_left named
            rw [processed, chunks_eq_take_cons_tail, List.cons_append,
              List.find?_cons_of_neg (by simpa using named), tail.find?_append]
            exact ih later
        | nil =>
            rw [Decides] at h
            rw [processed, List.map_nil, List.find?_nil]
            split at h
            · next fits => rw [chunks_of_le fits]; rfl
            · next long =>
                rw [dropLast_chunks_of_lt (Nat.not_le.mp long),
                  List.find?_cons_of_neg (by simpa using named)]
                exact List.find?_eq_none.mpr fun l hl => by simpa using h.resolve_left named l hl

/-- Lines that fit the buffer and end in a newline decide every lookup. -/
theorem decides_of_fits (fits : ∀ line ∈ lines, line.length ≤ LINE_SIZE - 1)
    (terminated : [] ∈ lines.getLast?) : Decides filename lines := by
  induction lines with
  | nil => trivial
  | cons line lines ih =>
      cases lines with
      | nil =>
          obtain rfl : line = [] := by simpa using terminated
          have blank : namedFile [] = none := rfl
          rw [Decides, if_pos (fits [] List.mem_cons_self), blank]
          exact Option.some_ne_none _ |>.symm
      | cons next lines =>
          refine .inr ⟨fun l hl => ?_, ih (fun l hl => fits l (List.mem_cons_of_mem _ hl)) ?_⟩
          · rw [chunks_of_le (fits line List.mem_cons_self), List.tail_cons] at hl
            cases hl
          · rwa [List.getLast?_cons_cons] at terminated

end Decides

/-- The last piece of a file that ends in a newline is empty. -/
theorem getLast?_fileLines {content : Bytes} (terminated : ∀ b ∈ content.getLast?, b = LF) :
    (fileLines content).getLast? = some [] := by
  obtain ⟨init, last, split, join, clean, -⟩ := exists_splitOn_eq LF content
  rw [fileLines, split, List.getLast?_concat, Option.some.injEq]
  by_contra nonempty
  have final : content.getLast? = some (last.getLast nonempty) := by
    rw [join, List.getLast?_append_of_ne_nil _ nonempty, List.getLast?_eq_some_getLast nonempty]
  have newline := terminated _ final
  exact clean (newline ▸ List.getLast_mem nonempty)

/-! ## The reader -/

/-- `gt_find_person_boxes_csv` accepts the record format. The file may have any bytes
but NUL, lines of any length and any line ends. Where a line decides, the reader is the
format applied to the lines cut to the buffer, and where all lines fit the buffer and end
in a newline, it is the format itself. -/
theorem gt_find_agrees_reference [Zero F] (lc : Libc F) (csv : OpenResult)
    (opened : ¬ csv.ret < 0) (clean : NUL ∉ csv.data) (filename : Bytes) :
    (Decides filename (fileLines csv.data) →
      (gt_find_person_boxes_csv lc csv filename).Agrees
        (answer lc ((fileLines csv.data).map (List.take (LINE_SIZE - 1))) filename)) ∧
    ((∀ line ∈ fileLines csv.data, line.length ≤ LINE_SIZE - 1) →
      (∀ b ∈ csv.data.getLast?, b = LF) →
      (gt_find_person_boxes_csv lc csv filename).Agrees (reference lc csv.data filename)) := by
  have cut (decides : Decides filename (fileLines csv.data)) :
      (gt_find_person_boxes_csv lc csv filename).Agrees
        (answer lc ((fileLines csv.data).map (List.take (LINE_SIZE - 1))) filename) := by
    rw [answer, ← decides.find?_eq, ← records_eq_processed]
    exact gt_find_agrees_answer lc opened clean filename
  refine ⟨cut, fun fits terminated => ?_⟩
  have whole : (fileLines csv.data).map (List.take (LINE_SIZE - 1)) = fileLines csv.data :=
    (List.map_congr_left fun line h => List.take_of_length_le (fits line h)).trans (List.map_id _)
  rw [reference, ← whole]
  exact cut (decides_of_fits fits (getLast?_fileLines terminated))

/-- A file of two terminated records, the second with one box. -/
def sampleCsv : Bytes :=
  [97, 44, 48, LF] ++ [98, 44, 49, 44, 49, 44, 50, 44, 51, 44, 52, LF]

/-- A line that the buffer cuts, and that is about no file. -/
def longLine : Bytes := List.replicate 4100 120

/-- A record with one box that the buffer cuts behind it: `b,1,1,2,3,4`, and blanks. -/
def paddedRecord : Bytes :=
  [98, 44, 49, 44, 49, 44, 50, 44, 51, 44, 52] ++ List.replicate 4100 SPACE

/-- The two long lines, and `b,0` without a newline. -/
def longCsv : OpenResult where
  ret := 0
  data := longLine ++ LF :: (paddedRecord ++ LF :: [98, 44, 48])

theorem fileLines_longCsv : fileLines longCsv.data = [longLine, paddedRecord, [98, 44, 48]] := by
  have first : LF ∉ longLine := by simp [longLine, LF, -List.reduceReplicate]
  have second : LF ∉ paddedRecord := by simp [paddedRecord, LF, SPACE, -List.reduceReplicate]
  rw [fileLines, longCsv, List.splitOn_append_cons_self_of_not_mem first,
    List.splitOn_append_cons_self_of_not_mem second, List.splitOn_eq_singleton (by decide)]

theorem decides_longCsv : Decides [98] [longLine, paddedRecord, [98, 44, 48]] := by
  refine .inr ⟨fun piece h => ?_, .inl (by decide +kernel)⟩
  rw [longLine, chunks_of_lt (by simp [LINE_SIZE, -List.reduceReplicate]), List.tail_cons,
    List.drop_replicate, chunks_of_le (by decide), List.mem_singleton] at h
  rw [h]
  decide

/-- The reader finds the box in the cut record, and reads the short file as the format says. -/
theorem gt_find_agrees_reference_sample :
    (gt_find_person_boxes_csv Libc.decimal longCsv [98]).Agrees
        (answer Libc.decimal ((fileLines longCsv.data).map (List.take (LINE_SIZE - 1))) [98]) ∧
      (gt_find_person_boxes_csv Libc.decimal ⟨0, sampleCsv⟩ [98]).Agrees
        (reference Libc.decimal sampleCsv [98]) := by
  have clean : NUL ∉ longCsv.data := by
    simp [longCsv, longLine, paddedRecord, NUL, LF, SPACE, -List.reduceReplicate]
  have read := gt_find_agrees_reference .decimal longCsv (by decide) clean [98]
  have terminated : ∀ b ∈ sampleCsv.getLast?, b = LF := by
    rintro b ⟨⟩
    rfl
  rw [fileLines_longCsv] at read ⊢
  exact ⟨read.1 decides_longCsv,
    (gt_find_agrees_reference .decimal ⟨0, sampleCsv⟩ (by decide) (by decide) [98]).2
      (by decide) terminated⟩

/-- A record with one box, whose third number has too many digits for the buffer:
`a,1,1,2,000…,4`. -/
def truncatedRecord : Bytes :=
  [97, 44, 49, 44, 49, 44, 50, 44] ++ (List.replicate 4095 48 ++ [44, 52])

def truncatedCsv : OpenResult where
  ret := 0
  data := truncatedRecord ++ [LF]

/-- The format without the cut fails: of the record, the reader sees three numbers, and
returns an error. -/
theorem gt_find_not_agrees_reference :
    ¬ ∀ (lc : Libc ℚ) (csv : OpenResult) (filename : Bytes), ¬ csv.ret < 0 →
      NUL ∉ csv.data → filename ≠ [] → COMMA ∉ filename → LF ∉ filename → CR ∉ filename →
      trim filename = filename →
      (gt_find_person_boxes_csv lc csv filename).Agrees
        (reference lc csv.data filename) := by
  intro h
  have opened : ¬ truncatedCsv.ret < 0 := by decide
  have clean : NUL ∉ truncatedCsv.data := by
    simp [truncatedCsv, truncatedRecord, NUL, LF, -List.reduceReplicate]
  have whole := (h .decimal truncatedCsv [97] opened clean (by decide) (by decide) (by decide)
    (by decide) (by decide)).ret
  have cut := (gt_find_agrees_answer .decimal opened clean [97]).ret
  have lines : fileLines truncatedCsv.data = [truncatedRecord, []] := by
    have one : LF ∉ truncatedRecord := by simp [truncatedRecord, LF, -List.reduceReplicate]
    rw [fileLines, truncatedCsv, List.splitOn_append_cons_self_of_not_mem one]
    rfl
  have seen : (answer Libc.decimal (records truncatedCsv.data) [97]).1 = -EINVAL := by
    rw [records_eq_processed, lines, processed, chunks_eq_take_cons_tail, List.cons_append,
      answer_cons_of_named _ (by decide +kernel)]
    decide +kernel
  have meant : (reference Libc.decimal truncatedCsv.data [97]).1 = 0 := by
    rw [reference, lines]
    decide +kernel
  rw [whole, meant, seen] at cut
  exact absurd cut (by decide)

end PeopleDetection
