import Mathlib.Data.List.GetD
import PeopleDetection.GroundTruth.Reader

/-!
# What the ground-truth reader accepts

The reader is compared with the definition of the record format. `records` are the
buffers that the reading loop processes; they are related to the lines of the file
through `chunks`, because a line that does not fit the buffer is processed piecewise.
The first record that names the requested file decides, and `interpret` says how.

`reference` is the format itself: split the file at newlines, trim, split at commas.
-/

namespace PeopleDetection

open Library

variable {F : Type}

/-! ## The format -/

/-- The fields of a line, trimmed. Empty fields do not count. -/
def lineFields (line : Bytes) : List Bytes := (fields COMMA (rstrip line)).map trim

/-- The file a line is about. -/
def namedFile (line : Bytes) : Option Bytes := (lineFields line).head?

section Format

variable [Zero F]

/-- The struct holding the first `n` rows of four numbers of a list of fields. -/
def boxRows (lc : Libc F) (n : Nat) (numbers : List Bytes) : GtBoxes F where
  count := n
  xywh i k := if i < n ∧ k < 4 then lc.strtof (numbers.getD (4 * i + k) []) else 0

/-- The meaning of the fields behind the file name. -/
def interpret (lc : Libc F) : List Bytes → Int × GtBoxes F
  | [] => (-EINVAL, .zero)
  | count :: numbers =>
      let n := (max 0 (min (lc.atoi count) 64)).toNat
      if numbers.length < 4 * n then (-EINVAL, .zero) else (0, boxRows lc n numbers)

/-- The first line about `filename` decides. -/
def answer (lc : Libc F) (lines : List Bytes) (filename : Bytes) : Int × GtBoxes F :=
  match lines.find? (fun line => namedFile line = some filename) with
  | none => (-ENOENT, .zero)
  | some line => interpret lc (lineFields line).tail

/-- The pieces of a file between newlines; the last one may be empty or unterminated. -/
def fileLines (content : Bytes) : List Bytes := content.splitOn LF

/-- The record format: every piece between newlines is a line. -/
def reference (lc : Libc F) (content filename : Bytes) : Int × GtBoxes F :=
  answer lc (fileLines content) filename

end Format

/-- A lookup returns what the format says. The struct of a failed lookup is only
promised to be empty; the rows that were already written may still be there. -/
structure Lookup.Agrees (l : Lookup F) (r : Int × GtBoxes F) : Prop where
  ret : l.ret = r.1
  count : l.out.count = r.2.count
  out : l.ret = 0 → l.out = r.2

/-! ## One line -/

/-- The cell that receives the `j`-th number. -/
def cellAt (j : Nat) : Nat × Nat := (j / 4, j % 4)

section Cells

variable [Zero F]

/-- The struct after the first `m` numbers of `fs` have been stored. -/
def filled (lc : Libc F) (fs : List Bytes) (m : Nat) : GtBoxes F where
  count := 0
  xywh i k := if k < 4 ∧ 4 * i + k < m then lc.strtof (trim (fs.getD (4 * i + k) [])) else 0

theorem filled_zero (lc : Libc F) (fs : List Bytes) : filled lc fs 0 = .zero := by
  simp [filled, GtBoxes.zero]

/-- One store extends the filled part by one cell. -/
theorem filled_set (lc : Libc F) {fs : List Bytes} {m : Nat} (h : m < fs.length) :
    (filled lc fs m).set (m / 4) (m % 4) (lc.strtof (trim fs[m])) = filled lc fs (m + 1) := by
  refine GtBoxes.ext rfl ?_
  funext i k
  simp only [GtBoxes.set, filled]
  by_cases here : i = m / 4 ∧ k = m % 4
  · have hm : 4 * i + k = m := by omega
    have hk : k < 4 := by omega
    rw [if_pos here, hm, if_pos ⟨hk, by omega⟩, List.getD_eq_getElem _ _ h]
  · have same : (k < 4 ∧ 4 * i + k < m + 1) ↔ (k < 4 ∧ 4 * i + k < m) := by omega
    rw [if_neg here]
    simp only [same]

/-- While fields remain, the loop over the first `m` cells stores `m` numbers. -/
theorem run_readCell (lc : Libc F) (save : Bytes) {m : Nat}
    (h : m ≤ (fields COMMA save).length) :
    ∃ save', Flow.run (readCell lc) (.zero, save) ((List.range m).map cellAt) =
        .next (filled lc (fields COMMA save) m, save') ∧
      fields COMMA save' = (fields COMMA save).drop m := by
  induction m with
  | zero => exact ⟨save, by rw [filled_zero]; rfl, rfl⟩
  | succ m ih =>
      obtain ⟨save', run, remaining⟩ := ih (by omega)
      rw [List.drop_eq_getElem_cons (by omega : m < (fields COMMA save).length)] at remaining
      obtain ⟨save'', next, rest⟩ := nextField_of_fields remaining
      refine ⟨save'', ?_, rest⟩
      rw [List.range_succ, List.map_append, Flow.run_append_of_next run, List.map_singleton,
        Flow.run_cons_of_next (t := (filled lc (fields COMMA save) (m + 1), save''))]
      · rfl
      · simp only [readCell, next, cellAt,
          filled_set lc (by omega : m < (fields COMMA save).length)]

/-- With too few fields the loop stops, and the count stays zero. -/
theorem run_readCell_short (lc : Libc F) (save : Bytes) {m : Nat}
    (h : (fields COMMA save).length < m) :
    ∃ s, Flow.run (readCell lc) (.zero, save) ((List.range m).map cellAt) = .stop () s ∧
      s.1.count = 0 := by
  obtain ⟨save', run, remaining⟩ := run_readCell lc save (Nat.le_refl _)
  rw [List.drop_length] at remaining
  refine ⟨(filled lc (fields COMMA save) (fields COMMA save).length, save'), ?_, rfl⟩
  obtain ⟨k, rfl⟩ := Nat.exists_eq_add_of_lt h
  rw [Nat.add_assoc, List.range_add, List.map_append, Flow.run_append_of_next run,
    Nat.add_comm k 1, List.range_add, List.range_one, List.cons_append, List.nil_append,
    List.map_cons, List.map_cons]
  apply Flow.run_cons_of_stop
  simp only [readCell, nextField_eq_none_iff.mpr remaining]

/-- The rest of a matching line is read as the format says. -/
theorem parseBoxes_agrees (lc : Libc F) (save : Bytes) :
    let r := parseBoxes lc save .zero
    let spec := interpret lc ((fields COMMA save).map trim)
    r.1 = spec.1 ∧ r.2.count = spec.2.count ∧ (r.1 = 0 → r.2 = spec.2) := by
  cases hf : fields COMMA save with
  | nil =>
      simp [parseBoxes, nextField_eq_none_iff.mpr hf, interpret]
  | cons count numbers =>
      obtain ⟨rest, next, remaining⟩ := nextField_of_fields hf
      simp only [parseBoxes, next, List.map_cons, interpret, List.length_map]
      rw [show (max 0 (min (lc.atoi (trim count)) 64)).toNat =
          clampCount (lc.atoi (trim count)) by rw [← clampCount_eq]; rfl]
      generalize clampCount (lc.atoi (trim count)) = n
      rw [show cells n = (List.range (4 * n)).map cellAt from cells_eq n]
      by_cases short : numbers.length < 4 * n
      · obtain ⟨s, run, zero⟩ := run_readCell_short lc rest (remaining ▸ short)
        rw [run, if_pos short]
        exact ⟨rfl, zero, fun h => by cases h⟩
      · obtain ⟨save', run, _⟩ := run_readCell lc rest (m := 4 * n)
          (by rw [remaining]; omega)
        rw [run, if_neg short, remaining]
        refine ⟨rfl, rfl, fun _ => GtBoxes.ext rfl ?_⟩
        funext i k
        have cell : (k < 4 ∧ 4 * i + k < 4 * n) ↔ (i < n ∧ k < 4) := by omega
        simp only [filled, boxRows, cell]
        split
        · next inside =>
            have bound : 4 * i + k < numbers.length := by omega
            rw [List.getD_eq_getElem _ _ bound,
              List.getD_eq_getElem _ _ (by simpa using bound), List.getElem_map]
        · rfl

end Cells

/-- A line without NUL is skipped exactly when it is not about the requested file. -/
theorem parseLine_eq_none_iff (lc : Libc F) (filename : Bytes) (out : GtBoxes F)
    {line : Bytes} (clean : NUL ∉ line) :
    parseLine lc filename out line = none ↔ namedFile line ≠ some filename := by
  simp only [parseLine, cstring_eq_self clean, namedFile, lineFields]
  by_cases empty : rstrip line = []
  · simp [empty]
  · rw [if_neg empty]
    cases hf : fields COMMA (rstrip line) with
    | nil => simp [nextField_eq_none_iff.mpr hf]
    | cons f fs =>
        obtain ⟨rest, next, _⟩ := nextField_of_fields hf
        simp [next]

/-- A line about the requested file leaves the loop with the format's answer. -/
theorem parseLine_of_named [Zero F] (lc : Libc F) (filename : Bytes) {line : Bytes}
    (clean : NUL ∉ line) (named : namedFile line = some filename) :
    ∃ r, parseLine lc filename .zero line = some r ∧
      r.1 = (interpret lc (lineFields line).tail).1 ∧
      r.2.count = (interpret lc (lineFields line).tail).2.count ∧
      (r.1 = 0 → r.2 = (interpret lc (lineFields line).tail).2) := by
  simp only [namedFile, lineFields] at named
  cases hf : fields COMMA (rstrip line) with
  | nil => simp [hf] at named
  | cons f fs =>
      obtain ⟨rest, next, remaining⟩ := nextField_of_fields hf
      have nonempty : rstrip line ≠ [] := fun h => by simp [h] at hf
      have name : trim f = filename := by simpa [hf] using named
      refine ⟨parseBoxes lc rest .zero, ?_, ?_⟩
      · simp only [parseLine, cstring_eq_self clean, if_neg nonempty, next, if_pos name]
      · have spec := parseBoxes_agrees lc rest
        rw [remaining] at spec
        simpa only [lineFields, hf, List.map_cons, List.tail_cons] using spec

/-! ## The whole file -/

/-- The buffers that the reading loop processes, started with `line` in the buffer. -/
def recordsFrom (line : Bytes) : Bytes → List Bytes
  | [] => []
  | ch :: rest =>
      if ch = LF ∨ line.length = LINE_SIZE - 1 then line :: recordsFrom [] rest
      else recordsFrom (line ++ [ch]) rest

def records (content : Bytes) : List Bytes := recordsFrom [] content

/-- The reading loop looks for the first record that is not skipped. -/
theorem run_readByte (lc : Libc F) (filename : Bytes) (out : GtBoxes F) (content : Bytes) :
    ∀ line, match (recordsFrom line content).findSome? (parseLine lc filename out) with
      | none => ∃ l, Flow.run (readByte lc filename out) line content = .next l
      | some r => Flow.run (readByte lc filename out) line content = .stop r [] := by
  induction content with
  | nil => exact fun line => ⟨line, rfl⟩
  | cons ch rest ih =>
      intro line
      by_cases full : ch = LF ∨ line.length = LINE_SIZE - 1
      · rw [recordsFrom, if_pos full]
        cases hp : parseLine lc filename out line with
        | none =>
            have step : readByte lc filename out line ch = .next [] := by
              simp only [readByte, if_pos full, hp]
            rw [List.findSome?_cons_of_isNone (by rw [hp]; rfl),
              Flow.run_cons_of_next step]
            exact ih []
        | some r =>
            have step : readByte lc filename out line ch = .stop r [] := by
              simp only [readByte, if_pos full, hp]
            rw [List.findSome?_cons_of_isSome (by rw [hp]; rfl), hp]
            exact Flow.run_cons_of_stop step
      · have step : readByte lc filename out line ch = .next (line ++ [ch]) := by
          simp only [readByte, if_neg full]
        rw [recordsFrom, if_neg full, Flow.run_cons_of_next step]
        exact ih (line ++ [ch])

/-- Records consist of bytes of the file. -/
theorem mem_of_mem_recordsFrom {content line record : Bytes} {b : UInt8}
    (h : record ∈ recordsFrom line content) (hb : b ∈ record) : b ∈ line ++ content := by
  induction content generalizing line with
  | nil => cases h
  | cons ch rest ih =>
      rw [recordsFrom] at h
      split at h
      · rcases List.mem_cons.mp h with rfl | h
        · exact List.mem_append_left _ hb
        · exact List.mem_append_right _ (List.mem_cons_of_mem _ (by simpa using ih h))
      · simpa using ih h

section Answer

variable [Zero F] (lc : Libc F) {filename line : Bytes} {lines : List Bytes}

theorem answer_nil (filename : Bytes) : answer lc [] filename = (-ENOENT, .zero) := rfl

theorem answer_cons_of_named (named : namedFile line = some filename) :
    answer lc (line :: lines) filename = interpret lc (lineFields line).tail := by
  simp [answer, named]

theorem answer_cons_of_ne (other : namedFile line ≠ some filename) :
    answer lc (line :: lines) filename = answer lc lines filename := by
  simp [answer, other]

/-- Looking for a record that is not skipped is looking for a line about the file. -/
theorem findSome_parseLine (filename : Bytes) (clean : ∀ l ∈ lines, NUL ∉ l) :
    match lines.findSome? (parseLine lc filename .zero) with
    | none => answer lc lines filename = (-ENOENT, .zero)
    | some r => r.1 = (answer lc lines filename).1 ∧
        r.2.count = (answer lc lines filename).2.count ∧
        (r.1 = 0 → r.2 = (answer lc lines filename).2) := by
  induction lines with
  | nil => exact answer_nil lc filename
  | cons line lines ih =>
      have head := clean line (by simp)
      by_cases named : namedFile line = some filename
      · obtain ⟨r, hr, spec⟩ := parseLine_of_named lc filename head named
        rw [List.findSome?_cons_of_isSome (by rw [hr]; rfl), hr,
          answer_cons_of_named lc named]
        exact spec
      · have skipped := (parseLine_eq_none_iff lc filename .zero head).mpr named
        rw [List.findSome?_cons_of_isNone (by rw [skipped]; rfl),
          answer_cons_of_ne lc named]
        exact ih fun l hl => clean l (List.mem_cons_of_mem _ hl)

/-- The reader is the format's decision over the processed records. -/
theorem gt_find_agrees_answer {csv : OpenResult} (opened : ¬ csv.ret < 0)
    (clean : NUL ∉ csv.data) (filename : Bytes) :
    (gt_find_person_boxes_csv lc csv filename).Agrees
      (answer lc (records csv.data) filename) := by
  have run := run_readByte lc filename .zero csv.data []
  have cleanRecords : ∀ r ∈ records csv.data, NUL ∉ r := fun r hr hz =>
    clean (by simpa using mem_of_mem_recordsFrom hr hz)
  have spec := findSome_parseLine lc filename cleanRecords
  rw [show recordsFrom [] csv.data = records csv.data from rfl] at run
  cases hf : (records csv.data).findSome? (parseLine lc filename .zero) with
  | none =>
      simp only [hf] at run spec
      obtain ⟨l, run⟩ := run
      simp only [gt_find_person_boxes_csv, if_neg opened, run, spec]
      exact ⟨rfl, rfl, fun _ => rfl⟩
  | some r =>
      simp only [hf] at run spec
      simp only [gt_find_person_boxes_csv, if_neg opened, run]
      exact ⟨spec.1, spec.2.1, spec.2.2⟩

omit [Zero F] in
/-- A matching line ends in success or in `-EINVAL`. -/
theorem parseBoxes_ret (save : Bytes) (out : GtBoxes F) :
    (parseBoxes lc save out).1 = 0 ∨ (parseBoxes lc save out).1 = -EINVAL := by
  rw [parseBoxes]
  split
  · exact Or.inr rfl
  · simp only
    split
    · exact Or.inr rfl
    · exact Or.inl rfl

omit [Zero F] in
theorem count_run_readCell (cells : List (Nat × Nat)) (s : GtBoxes F × Bytes) :
    (Flow.run (readCell lc) s cells).state.1.count = s.1.count := by
  induction cells generalizing s with
  | nil => rfl
  | cons cell cells ih =>
      cases hn : nextField s.2 with
      | none =>
          rw [Flow.run_cons_of_stop (e := ()) (t := s) (by simp only [readCell, hn])]
          rfl
      | some r =>
          rw [Flow.run_cons_of_next (t := (s.1.set cell.1 cell.2 (lc.strtof r.1), r.2))
            (by simp only [readCell, hn]), ih]
          rfl

omit [Zero F] in
/-- A record that cannot be read leaves the count alone. -/
theorem count_parseBoxes_of_failed {save : Bytes} {out : GtBoxes F}
    (failed : (parseBoxes lc save out).1 < 0) :
    (parseBoxes lc save out).2.count = out.count := by
  rw [parseBoxes] at failed ⊢
  cases hn : nextField save with
  | none => rfl
  | some r =>
      have kept := count_run_readCell lc (cells (clampCount (lc.atoi r.1))) (out, r.2)
      simp only [hn] at failed ⊢
      cases hr : Flow.run (readCell lc) (out, r.2) (cells (clampCount (lc.atoi r.1))) with
      | next s =>
          rw [hr] at failed
          exact absurd failed (Int.lt_irrefl 0)
      | stop e s =>
          rw [hr] at kept
          exact kept

omit [Zero F] in
/-- The reading loop is left with what follows a matching file name. -/
theorem exists_parseBoxes_of_stop {out : GtBoxes F} {data l : Bytes} {r : Int × GtBoxes F}
    (h : Flow.run (readByte lc filename out) line data = .stop r l) :
    ∃ save, r = parseBoxes lc save out := by
  obtain ⟨_, ch, _, buffer, _, _, step⟩ := Flow.run_eq_stop h
  simp only [readByte] at step
  split at step
  · split at step
    · cases step
    · next r' parsed =>
        cases step
        simp only [parseLine, Option.ite_none_left_eq_some] at parsed
        obtain ⟨-, parsed⟩ := parsed
        split at parsed
        · cases parsed
        · next tok save _ =>
            rw [Option.ite_none_right_eq_some, Option.some.injEq] at parsed
            exact ⟨save, parsed.2.symm⟩
  · cases step

/-- A failed lookup reports no boxes. -/
theorem gt_find_count_of_failed {csv : OpenResult}
    (failed : (gt_find_person_boxes_csv lc csv filename).ret < 0) :
    (gt_find_person_boxes_csv lc csv filename).out.count = 0 := by
  rw [gt_find_person_boxes_csv] at failed ⊢
  split at failed
  · next h => rw [if_pos h]; rfl
  · next h =>
      rw [if_neg h]
      cases hr : Flow.run (readByte lc filename .zero) [] csv.data with
      | next l => rfl
      | stop r l =>
          rw [hr] at failed
          obtain ⟨save, rfl⟩ := exists_parseBoxes_of_stop lc hr
          exact count_parseBoxes_of_failed lc failed

/-- A lookup that finds no line leaves the struct zeroed. -/
theorem gt_find_out_of_not_found {csv : OpenResult} (opened : ¬ csv.ret < 0)
    (notFound : (gt_find_person_boxes_csv lc csv filename).ret = -ENOENT) :
    (gt_find_person_boxes_csv lc csv filename).out = .zero := by
  have run := run_readByte lc filename .zero csv.data []
  cases hf : (recordsFrom [] csv.data).findSome? (parseLine lc filename .zero) with
  | none =>
      simp only [hf] at run
      obtain ⟨l, run⟩ := run
      simp only [gt_find_person_boxes_csv, if_neg opened, run]
  | some r =>
      simp only [hf] at run
      obtain ⟨record, -, found⟩ := List.exists_of_findSome?_eq_some hf
      simp only [parseLine, Option.ite_none_left_eq_some] at found
      obtain ⟨-, found⟩ := found
      split at found
      · cases found
      · next tok save _ =>
          rw [Option.ite_none_right_eq_some, Option.some.injEq] at found
          simp only [gt_find_person_boxes_csv, if_neg opened, run] at notFound
          rcases parseBoxes_ret lc save .zero with h | h <;>
            rw [found.2, notFound] at h <;> cases h

end Answer

/-! ## Records and lines -/

/-- A terminated line contributes the pieces into which the buffer cuts it. -/
theorem recordsFrom_append_LF {l : Bytes} (clean : LF ∉ l) (rest : Bytes) :
    ∀ line : Bytes, line.length ≤ LINE_SIZE - 1 →
      recordsFrom line (l ++ LF :: rest) =
        chunks (LINE_SIZE - 1) (line ++ l) ++ recordsFrom [] rest := by
  induction l with
  | nil =>
      intro line short
      rw [List.nil_append, recordsFrom, if_pos (Or.inl rfl), List.append_nil,
        chunks_of_le short]
      rfl
  | cons ch l ih =>
      have hch : ch ≠ LF := fun h => clean (by simp [h])
      have hl : LF ∉ l := fun h => clean (List.mem_cons_of_mem _ h)
      intro line short
      rw [List.cons_append, recordsFrom]
      by_cases full : line.length = LINE_SIZE - 1
      · rw [if_pos (Or.inr full), ih hl _ (Nat.zero_le _), chunks_append_cons full,
          List.nil_append, List.cons_append]
      · rw [if_neg (not_or.mpr ⟨hch, full⟩),
          ih hl _ (by rw [List.length_append, List.length_singleton]; omega), List.append_assoc,
          List.singleton_append]

/-- An unterminated piece is processed up to its last cut, but not to its end. -/
theorem recordsFrom_of_not_mem {l : Bytes} (clean : LF ∉ l) :
    ∀ {line : Bytes}, line.length ≤ LINE_SIZE - 1 →
      recordsFrom line l = (chunks (LINE_SIZE - 1) (line ++ l)).dropLast := by
  induction l with
  | nil =>
      intro line short
      rw [List.append_nil, chunks_of_le short]
      rfl
  | cons ch l ih =>
      have hch : ch ≠ LF := fun h => clean (by simp [h])
      have hl : LF ∉ l := fun h => clean (List.mem_cons_of_mem _ h)
      intro line short
      rw [recordsFrom]
      by_cases full : line.length = LINE_SIZE - 1
      · rw [if_pos (Or.inr full), ih hl (Nat.zero_le _), chunks_append_cons full,
          List.nil_append, List.dropLast_cons_of_ne_nil (chunks_ne_nil _ _)]
      · rw [if_neg (not_or.mpr ⟨hch, full⟩),
          ih hl (by rw [List.length_append, List.length_singleton]; omega), List.append_assoc,
          List.singleton_append]

/-- A file of terminated lines. -/
theorem records_flatMap_append (ls : List Bytes) (clean : ∀ l ∈ ls, LF ∉ l) (rest : Bytes) :
    records (ls.flatMap (· ++ [LF]) ++ rest) =
      ls.flatMap (chunks (LINE_SIZE - 1)) ++ records rest := by
  induction ls with
  | nil => rfl
  | cons l ls ih =>
      rw [List.flatMap_cons, List.append_assoc, List.append_assoc, List.singleton_append]
      have := recordsFrom_append_LF (clean l (by simp)) (ls.flatMap (· ++ [LF]) ++ rest)
        [] (Nat.zero_le _)
      rw [records, this, List.nil_append, List.flatMap_cons, List.append_assoc]
      exact congrArg _ (ih fun l' hl' => clean l' (List.mem_cons_of_mem _ hl'))

end PeopleDetection
