import PeopleDetection.GroundTruth.Records
import PeopleDetection.Library.StringBuffer

/-!
# The reader in its buffer

`gt_find_person_boxes_csv` once more, closer to the source: the line is an array of 4096
bytes that is filled at `pos` and tokenized in place, whatever it held before, and a token is
a position in it. Every access to the line and every assignment to `out->xywh` is checked
against the bounds; an access outside ends the function with `outOfBounds`. The state records
the cells that were assigned, and the file is closed where the source closes it.

The reader on byte strings is what this one computes, and no access is out of bounds.
-/

namespace PeopleDetection

open Library Library.StringBuffer

variable {F : Type}

/-! ## Tokens -/

/-- `char line[4096]`. -/
abbrev LineBuffer : Type := Nat → UInt8

/-- `rstrip(line + p)`. -/
def rstripAt (line : LineBuffer) (p : Nat) : Option LineBuffer :=
  trimEnd LINE_SIZE NUL isTrailing line p

/-- `lskip(&p)`. -/
def lskipAt (line : LineBuffer) (p : Nat) : Option Nat :=
  scan LINE_SIZE line (fun b => !isBlank b) p

/-- `strtok_r(…, ",", &save)`, `lskip` and `rstrip`: the buffer, the token and the saved
position. The inner `none` is the null pointer. -/
def nextFieldAt (line : LineBuffer) (save : Nat) :
    Option (Option (LineBuffer × Nat × Nat)) := do
  match ← token LINE_SIZE NUL COMMA line save with
  | none => some none
  | some (line, tok, save) =>
      let tok ← lskipAt line tok
      let line ← rstripAt line tok
      some (some (line, tok, save))

/-! ## The reader -/

/-- The variables of the function, the cells assigned so far, and what happened to the
file. -/
structure LineReader (F : Type) where
  line : LineBuffer
  pos : Nat
  found : Bool
  out : GtBoxes F
  assigned : List (Nat × Nat)
  trace : List FsEvent

/-- How the function leaves a loop. -/
inductive ReaderExit where
  | outOfBounds
  | returned (ret : Int)
  | broke
  deriving DecidableEq

/-- A turn that may access memory out of bounds. -/
def checked {σ : Type} (s : σ) (turn : Option (Flow σ ReaderExit)) : Flow σ ReaderExit :=
  turn.getD (.stop .outOfBounds s)

namespace LineReader

/-- `fs_close(&file)`. -/
def close (s : LineReader F) : LineReader F := { s with trace := s.trace ++ [.closed .csvLookup] }

/-- `out->xywh[i][k] = v`. -/
def assign (s : LineReader F) (i k : Nat) (v : F) : Option (LineReader F) :=
  if i < MAX_GT_BOXES ∧ k < 4 then
    some { s with out := s.out.set i k v, assigned := s.assigned ++ [(i, k)] }
  else none

/-- The body of the two nested loops, with the saved position. -/
def readCellAt (lc : Libc F) (s : LineReader F × Nat) (cell : Nat × Nat) :
    Flow (LineReader F × Nat) ReaderExit :=
  checked s do
    match ← nextFieldAt s.1.line s.2 with
    | none => some (.stop (.returned (-EINVAL)) (s.1.close, s.2))
    | some (line, tok, save) =>
        let text ← readString LINE_SIZE NUL line tok
        let r ← { s.1 with line := line }.assign cell.1 cell.2 (lc.strtof text)
        some (.next (r, save))

/-- What follows a matching file name. -/
def parseBoxesAt (lc : Libc F) (s : LineReader F) (save : Nat) : Flow (LineReader F) ReaderExit :=
  checked s do
    match ← nextFieldAt s.line save with
    | none => some (.stop (.returned (-EINVAL)) s.close)
    | some (line, tok, save) =>
        let text ← readString LINE_SIZE NUL line tok
        let n := clampCount (lc.atoi text)
        match Flow.run (readCellAt lc) ({ s with line := line }, save) (cells n) with
        | .stop e r => some (.stop e r.1)
        | .next r => some (.stop .broke { r.1 with out := { r.1.out with count := n } })

/-- A complete line. -/
def parseLineAt (lc : Libc F) (filename : Bytes) (s : LineReader F) :
    Flow (LineReader F) ReaderExit :=
  checked s do
    let line ← store LINE_SIZE s.line s.pos NUL
    let line ← rstripAt line 0
    let first ← load LINE_SIZE line 0
    let s := { s with line := line, pos := 0 }
    if first = NUL then some (.next s)
    else
      match ← nextFieldAt line 0 with
      | none => some (.next s)
      | some (line, tok, save) =>
          let text ← readString LINE_SIZE NUL line tok
          let s := { s with line := line }
          if text ≠ filename then some (.next s)
          else some (parseBoxesAt lc { s with found := true } save)

/-- One turn of the reading loop. -/
def readByteAt (lc : Libc F) (filename : Bytes) (s : LineReader F) (ch : UInt8) :
    Flow (LineReader F) ReaderExit :=
  if ch = LF ∨ s.pos = LINE_SIZE - 1 then parseLineAt lc filename s
  else
    checked s do
      let line ← store LINE_SIZE s.line s.pos ch
      some (.next { s with line := line, pos := s.pos + 1 })

/-- Behind the loop. -/
def finish (s : LineReader F) : Lookup F × List (Nat × Nat) :=
  let s := s.close
  (⟨if s.found then 0 else -ENOENT, s.out, s.trace⟩, s.assigned)

end LineReader

open LineReader in
/-- `gt_find_person_boxes_csv`, for a stack that holds `stale` where the line will be. The
result comes with the cells that were assigned; `none` is an access out of bounds. -/
def gt_find_in_buffer [Zero F] (lc : Libc F) (csv : OpenResult) (filename : Bytes)
    (stale : LineBuffer) : Option (Lookup F × List (Nat × Nat)) :=
  if csv.ret < 0 then some (⟨csv.ret, .zero, [.openFailed .csvLookup]⟩, [])
  else
    match Flow.run (readByteAt lc filename) ⟨stale, 0, false, .zero, [], [.opened .csvLookup]⟩
        csv.data with
    | .stop .outOfBounds _ => none
    | .stop (.returned ret) s => some (⟨ret, s.out, s.trace⟩, s.assigned)
    | .stop .broke s => some s.finish
    | .next s => some s.finish

/-! ## Tokens of a string -/

section Tokens

variable {line : LineBuffer} {p : Nat} {s : Bytes}

theorem rstripAt_spec (h : StrAt LINE_SIZE NUL line p s) :
    ∃ line', rstripAt line p = some line' ∧ StrAt LINE_SIZE NUL line' p (rstrip s) ∧
      ∀ q, q < p ∨ p + s.length ≤ q → line' q = line q :=
  h.trimEnd isTrailing

theorem lskipAt_spec (h : StrAt LINE_SIZE NUL line p s) :
    ∃ q, lskipAt line p = some q ∧ StrAt LINE_SIZE NUL line q (lskip s) ∧
      q + (lskip s).length = p + s.length := by
  obtain ⟨found, str⟩ := h.scan (fun b => !isBlank b) isBlank (by decide) fun _ _ => rfl
  refine ⟨_, found, str, ?_⟩
  have parts := congrArg List.length (List.takeWhile_append_dropWhile (p := isBlank) (l := s))
  rw [List.length_append] at parts
  rw [lskip]
  omega

/-- Tokenizing in place is tokenizing the string. -/
theorem nextFieldAt_spec (h : StrAt LINE_SIZE NUL line p s) :
    match nextField s with
    | none => nextFieldAt line p = some none
    | some (tok, rest) => ∃ line' q save, nextFieldAt line p = some (some (line', q, save)) ∧
        StrAt LINE_SIZE NUL line' q tok ∧ StrAt LINE_SIZE NUL line' save rest := by
  cases hs : s.dropWhile (· = COMMA) with
  | nil =>
      have none : nextField s = none := by
        rw [nextField, strtok_r, hs]
        rfl
      rw [none]
      simp only [nextFieldAt, h.token_of_nil (by decide) hs]
      rfl
  | cons b rest =>
      obtain ⟨line₁, first, save, tokenized, tok, tail, apart⟩ := h.token_of_cons (by decide) hs
      obtain ⟨q, skipped, str, same⟩ := lskipAt_spec tok
      obtain ⟨line₂, stripped, str', frame⟩ := rstripAt_spec str
      have some : nextField s = some (rstrip (lskip ((b :: rest).takeWhile (· ≠ COMMA))),
          ((b :: rest).dropWhile (· ≠ COMMA)).drop 1) := by
        rw [nextField, strtok_r, hs]
        rfl
      rw [some]
      refine ⟨line₂, q, save, ?_, str', tail.congr fun r lo _ => frame r (by omega)⟩
      simp only [nextFieldAt, tokenized, skipped, stripped, bind, Option.bind_some]

end Tokens

/-! ## The reader in place computes the reader -/

/-- How the function may be left behind a matching file name, when the reader on strings
returns `r` from there. The cells of the rows it reports were assigned, in order. -/
inductive Finished (r : Int × GtBoxes F) : ReaderExit → LineReader F → Prop
  | broke {s : LineReader F} : r.1 = 0 → s.out = r.2 → s.found = true →
      s.assigned = cells r.2.count.toNat → s.trace = [.opened .csvLookup] → Finished r .broke s
  | returned {s : LineReader F} : r.1 = -EINVAL → s.out = r.2 →
      s.trace = [.opened .csvLookup, .closed .csvLookup] → Finished r (.returned r.1) s

/-- A head of the loops over the cells: the reader on strings has the struct `a.1` and the
rest `a.2` of the line. -/
structure AtCell (front : List (Nat × Nat)) (a : GtBoxes F × Bytes) (b : LineReader F × Nat) :
    Prop where
  out : b.1.out = a.1
  rest : StrAt LINE_SIZE NUL b.1.line b.2 a.2
  found : b.1.found = true
  assigned : b.1.assigned = front
  trace : b.1.trace = [.opened .csvLookup]

/-- A head of the reading loop: the reader on strings holds `line`. -/
structure AtByte [Zero F] (line : Bytes) (s : LineReader F) : Prop where
  holds : Holds s.line 0 line
  pos : s.pos = line.length
  room : line.length < LINE_SIZE
  found : s.found = false
  out : s.out = .zero
  assigned : s.assigned = []
  trace : s.trace = [.opened .csvLookup]

namespace LineReader

variable (lc : Libc F)

theorem readCellAt_related {front : List (Nat × Nat)} {cell : Nat × Nat} {a : GtBoxes F × Bytes}
    {b : LineReader F × Nat} (inside : cell.1 < MAX_GT_BOXES ∧ cell.2 < 4) (h : AtCell front a b) :
    Flow.Related (AtCell (front ++ [cell]))
      (fun _ a e b => b.1.out = a.1 ∧ e = .returned (-EINVAL) ∧
        b.1.trace = [.opened .csvLookup, .closed .csvLookup])
      (readCell lc a cell) (readCellAt lc b cell) := by
  have field := nextFieldAt_spec h.rest
  rw [readCell]
  cases hn : nextField a.2 with
  | none =>
      simp only [hn] at field
      simp only [readCellAt, field]
      refine .stop ⟨h.out, rfl, ?_⟩
      rw [close, h.trace]
      rfl
  | some r =>
      simp only [hn] at field
      obtain ⟨line, tok, save, next, text, rest⟩ := field
      simp only [readCellAt, next, bind, Option.bind_some, text.readString, assign, if_pos inside]
      refine .next ⟨?_, rest, h.found, ?_, h.trace⟩
      · rw [h.out]
      · rw [h.assigned]

/-- The cells that the loops visit exist. -/
theorem mem_cells {n : Nat} {cell : Nat × Nat} (h : cell ∈ cells n) :
    cell.1 < n ∧ cell.2 < 4 := by
  simp only [cells, List.mem_flatMap, List.mem_map, List.mem_range] at h
  obtain ⟨i, hi, k, hk, rfl⟩ := h
  exact ⟨hi, hk⟩

theorem clampCount_le (n : Int) : clampCount n ≤ MAX_GT_BOXES := by
  have := clampCount_eq n
  simp only [MAX_GT_BOXES]
  omega

theorem parseBoxesAt_finished {s : LineReader F} {save : Nat} {rest : Bytes}
    (str : StrAt LINE_SIZE NUL s.line save rest) (found : s.found = true)
    (assigned : s.assigned = []) (trace : s.trace = [.opened .csvLookup]) :
    ∃ e s', parseBoxesAt lc s save = .stop e s' ∧ Finished (parseBoxes lc rest s.out) e s' := by
  have field := nextFieldAt_spec str
  rw [parseBoxes]
  cases hn : nextField rest with
  | none =>
      simp only [hn] at field
      refine ⟨.returned (-EINVAL), s.close, ?_, .returned rfl rfl ?_⟩
      · simp only [parseBoxesAt, field]
        rfl
      · rw [close, trace]
        rfl
  | some r =>
      simp only [hn] at field
      obtain ⟨line, tok, save', next, text, more⟩ := field
      have related := Flow.run_related (cells (clampCount (lc.atoi r.1)))
        (R := AtCell) (f := readCell lc) (g := readCellAt lc)
        (fun front cell a b hc h => readCellAt_related lc
          ⟨(mem_cells hc).1.trans_le (clampCount_le _), (mem_cells hc).2⟩ h)
        (s := (s.out, r.2)) (t := ({ s with line := line }, save'))
        ⟨rfl, more, found, assigned, trace⟩
      have run : parseBoxesAt lc s save = checked s
          (match Flow.run (readCellAt lc) ({ s with line := line }, save')
              (cells (clampCount (lc.atoi r.1))) with
          | .stop e r => some (.stop e r.1)
          | .next u => some (.stop .broke
              { u.1 with out := { u.1.out with count := clampCount (lc.atoi r.1) } })) := by
        simp only [parseBoxesAt, next, bind, Option.bind_some, text.readString]
      rw [run]
      simp only
      generalize Flow.run (readCell lc) (s.out, r.2) (cells (clampCount (lc.atoi r.1))) = a
        at related
      generalize Flow.run (readCellAt lc) ({ s with line := line }, save')
        (cells (clampCount (lc.atoi r.1))) = b at related
      cases related with
      | next h =>
          refine ⟨_, _, rfl, .broke rfl ?_ h.found ?_ h.trace⟩
          · simp only [h.out]
          · simp only [h.assigned, Int.toNat_natCast]
      | stop h =>
          obtain ⟨out, rfl, trace⟩ := h
          exact ⟨_, _, rfl, .returned rfl out trace⟩

variable [Zero F] (filename : Bytes) {line : Bytes} {s : LineReader F}

/-- A line that is skipped leaves an empty buffer; any other one leaves the loop. -/
theorem parseLineAt_finished (h : AtByte line s) :
    match parseLine lc filename .zero line with
    | none => ∃ s', parseLineAt lc filename s = .next s' ∧ AtByte [] s'
    | some r => ∃ e s', parseLineAt lc filename s = .stop e s' ∧ Finished r e s' := by
  have room := h.room
  -- the terminator
  have stored : store LINE_SIZE s.line s.pos NUL =
      some (Function.update s.line line.length NUL) := by
    rw [store, h.pos, if_pos h.room]
  have str : StrAt LINE_SIZE NUL (Function.update s.line line.length NUL) 0 (cstring line) := by
    refine Holds.strAt (h.holds.congr fun q _ hi => Function.update_of_ne (by omega) _ _) ?_ ?_
    · rw [Nat.zero_add, Function.update_self]
    · rwa [Nat.zero_add]
  obtain ⟨line₁, stripped, str₁, -⟩ := rstripAt_spec str
  have skipped : ∀ l : LineBuffer, AtByte [] { s with line := l, pos := 0 } := fun l =>
    ⟨trivial, rfl, by decide, h.found, h.out, h.assigned, h.trace⟩
  have loaded : load LINE_SIZE line₁ 0 = some (line₁ 0) := if_pos (by decide)
  rw [parseLine]
  generalize rstrip (cstring line) = trimmed at str₁
  cases trimmed with
  | nil =>
      refine ⟨_, ?_, skipped line₁⟩
      simp only [parseLineAt, stored, stripped, loaded, bind, Option.bind_some, if_pos str₁.2]
      rfl
  | cons b rest =>
      have first : line₁ 0 ≠ NUL := fun hz => str₁.2.1 (str₁.1 ▸ hz)
      have field := nextFieldAt_spec str₁
      rw [if_neg (List.cons_ne_nil b rest)]
      cases hn : nextField (b :: rest) with
      | none =>
          simp only [hn] at field
          refine ⟨_, ?_, skipped line₁⟩
          simp only [parseLineAt, stored, stripped, loaded, bind, Option.bind_some, if_neg first,
            field]
          rfl
      | some r =>
          simp only [hn] at field
          obtain ⟨line₂, tok, save, next, text, more⟩ := field
          by_cases named : r.1 = filename
          · obtain ⟨e, s', run, finished⟩ := parseBoxesAt_finished lc
              (s := { s with line := line₂, pos := 0, found := true }) more rfl h.assigned h.trace
            simp only [if_pos named]
            refine ⟨e, s', ?_, h.out ▸ finished⟩
            simp only [parseLineAt, stored, stripped, loaded, bind, Option.bind_some, if_neg first,
              next, text.readString, ne_eq, named, not_true_eq_false, if_false, checked,
              Option.getD_some]
            exact run
          · simp only [if_neg named]
            refine ⟨_, ?_, skipped line₂⟩
            simp only [parseLineAt, stored, stripped, loaded, bind, Option.bind_some, if_neg first,
              next, text.readString, ne_eq, named, not_false_eq_true, if_true, checked,
              Option.getD_some]

theorem readByteAt_related (ch : UInt8) (h : AtByte line s) :
    Flow.Related AtByte (fun r _ e s => Finished r e s) (readByte lc filename .zero line ch)
      (readByteAt lc filename s ch) := by
  have room := h.room
  rw [readByte, readByteAt, h.pos]
  by_cases full : ch = LF ∨ line.length = LINE_SIZE - 1
  · rw [if_pos full, if_pos full]
    have parsed := parseLineAt_finished lc filename h
    cases hp : parseLine lc filename .zero line with
    | none =>
        simp only [hp] at parsed
        obtain ⟨s', run, head⟩ := parsed
        rw [run]
        exact .next head
    | some r =>
        simp only [hp] at parsed
        obtain ⟨e, s', run, finished⟩ := parsed
        rw [run]
        exact .stop finished
  · rw [if_neg full, if_neg full]
    simp only [store, if_pos room, bind, Option.bind_some]
    have short : line.length ≠ LINE_SIZE - 1 := fun e => full (Or.inr e)
    refine .next ⟨?_, ?_, ?_, h.found, h.out, h.assigned, h.trace⟩
    · refine Holds.concat (h.holds.congr fun q _ hi => Function.update_of_ne (by omega) _ _) ?_
      simp only [Nat.zero_add, Function.update_self]
    · rw [List.length_append, List.length_singleton]
    · rw [List.length_append, List.length_singleton]
      omega

end LineReader

section Safe

variable [Zero F] (lc : Libc F) (csv : OpenResult) (filename : Bytes)

/-- No access is out of bounds, and the reader in place computes the reader on strings. A
successful lookup has assigned the cells of its rows, in order. -/
theorem gt_find_in_buffer_eq (stale : LineBuffer) :
    ∃ assigned, gt_find_in_buffer lc csv filename stale =
        some (gt_find_person_boxes_csv lc csv filename, assigned) ∧
      ((gt_find_person_boxes_csv lc csv filename).ret = 0 →
        assigned = cells (gt_find_person_boxes_csv lc csv filename).out.count.toNat) := by
  rw [gt_find_in_buffer, gt_find_person_boxes_csv]
  by_cases failed : csv.ret < 0
  · rw [if_pos failed, if_pos failed]
    refine ⟨[], rfl, fun zero => ?_⟩
    simp only at zero
    omega
  · rw [if_neg failed, if_neg failed]
    have related := Flow.run_related csv.data (R := fun _ => AtByte)
      (fun _ ch _ _ _ h => LineReader.readByteAt_related lc filename ch h)
      (s := []) (t := ⟨stale, 0, false, .zero, [], [.opened .csvLookup]⟩)
      ⟨trivial, rfl, by decide, rfl, rfl, rfl, rfl⟩
    generalize Flow.run (readByte lc filename .zero) [] csv.data = a at related
    generalize Flow.run (LineReader.readByteAt lc filename) _ csv.data = b at related
    cases related with
    | @next line s h =>
        refine ⟨s.assigned, ?_, fun zero => absurd zero (show ¬ -ENOENT = 0 by decide)⟩
        simp only [LineReader.finish, LineReader.close, h.found, h.out, h.trace]
        rfl
    | @stop r line e s h =>
        cases h with
        | broke zero out found assigned trace =>
            refine ⟨s.assigned, ?_, fun _ => assigned⟩
            simp only [LineReader.finish, LineReader.close, found, out, trace, zero]
            rfl
        | returned failed out trace =>
            refine ⟨s.assigned, ?_, fun zero => ?_⟩
            · simp only [out, trace]
            · simp only [failed] at zero
              exact absurd zero (by decide)

end Safe

/-! ## What a successful lookup reports -/

/-- The buffers that the reader processes are pieces of the lines of the file. -/
theorem exists_line_of_mem_records {content record : Bytes} (h : record ∈ records content) :
    ∃ line ∈ fileLines content, record ∈ chunks (LINE_SIZE - 1) line := by
  obtain ⟨init, last, split, join, cleanLast, cleanInit⟩ := exists_splitOn_eq LF content
  rw [join, records_flatMap_append init cleanInit, records,
    recordsFrom_of_not_mem cleanLast (Nat.zero_le _), List.nil_append] at h
  rw [fileLines, split]
  cases List.mem_append.mp h with
  | inl h =>
      obtain ⟨line, hl, piece⟩ := List.mem_flatMap.mp h
      exact ⟨line, List.mem_append_left _ hl, piece⟩
  | inr h => exact ⟨last, List.mem_append_right _ List.mem_cons_self, List.mem_of_mem_dropLast h⟩

/-- The struct holds rows of the fields of one record: its name, its count, and four fields
for every row that is reported. -/
def RowsOf [Zero F] (lc : Libc F) (filename record : Bytes) (out : GtBoxes F) : Prop :=
  ∃ count numbers, lineFields (cstring record) = filename :: count :: numbers ∧
    4 * out.count.toNat ≤ numbers.length ∧
    ∀ i k, out.xywh i k =
      if i < out.count.toNat ∧ k < 4 then lc.strtof (numbers.getD (4 * i + k) []) else 0

section Rows

variable [Zero F] (lc : Libc F) {filename record : Bytes}

omit [Zero F] in
/-- A line that leaves the loop names the file. -/
theorem exists_save_of_parseLine {out : GtBoxes F} {r : Int × GtBoxes F}
    (h : parseLine lc filename out record = some r) :
    ∃ save, lineFields (cstring record) = filename :: (fields COMMA save).map trim ∧
      r = parseBoxes lc save out := by
  simp only [parseLine, Option.ite_none_left_eq_some] at h
  obtain ⟨-, h⟩ := h
  cases hn : nextField (rstrip (cstring record)) with
  | none => simp [hn] at h
  | some next =>
      obtain ⟨field, split, tok⟩ := fields_of_nextField_some hn
      simp only [hn, Option.ite_none_right_eq_some, Option.some.injEq] at h
      refine ⟨next.2, ?_, h.2.symm⟩
      rw [lineFields, split, List.map_cons, ← tok, h.1]

theorem zero_count_mem :
    0 ≤ (GtBoxes.zero : GtBoxes F).count ∧ (GtBoxes.zero : GtBoxes F).count ≤ MAX_GT_BOXES :=
  ⟨Int.le_refl 0, (by decide : (0 : Int) ≤ 64)⟩

/-- Only a readable record has a count, which is clamped. -/
theorem interpret_count_mem (fs : List Bytes) :
    let r := interpret lc fs
    0 ≤ r.2.count ∧ r.2.count ≤ MAX_GT_BOXES ∧ (r.1 ≠ 0 → r.2.count = 0) := by
  cases fs with
  | nil => exact ⟨zero_count_mem.1, zero_count_mem.2, fun _ => rfl⟩
  | cons count numbers =>
      simp only [interpret]
      split
      · exact ⟨zero_count_mem.1, zero_count_mem.2, fun _ => rfl⟩
      · refine ⟨Int.natCast_nonneg _, ?_, fun h => absurd rfl h⟩
        simp only [boxRows, MAX_GT_BOXES]
        omega

/-- A lookup reports at most 64 boxes, and none if it fails. -/
theorem gt_find_count_mem (csv : OpenResult) (filename : Bytes) :
    let r := gt_find_person_boxes_csv lc csv filename
    0 ≤ r.out.count ∧ r.out.count ≤ MAX_GT_BOXES ∧ (r.ret ≠ 0 → r.out.count = 0) := by
  simp only [gt_find_person_boxes_csv]
  split
  · exact ⟨zero_count_mem.1, zero_count_mem.2, fun _ => rfl⟩
  · cases run : Flow.run (readByte lc filename .zero) [] csv.data with
    | next line => exact ⟨zero_count_mem.1, zero_count_mem.2, fun _ => rfl⟩
    | stop r line =>
        obtain ⟨save, rfl⟩ := exists_parseBoxes_of_stop lc run
        obtain ⟨ret, count, -⟩ := parseBoxes_agrees lc save
        simp only [ret, count]
        exact interpret_count_mem lc _

/-- A successful lookup reports the rows of a record of the file. -/
theorem exists_record_of_found {csv : OpenResult}
    (found : (gt_find_person_boxes_csv lc csv filename).ret = 0) :
    ∃ record ∈ records csv.data,
      RowsOf lc filename record (gt_find_person_boxes_csv lc csv filename).out := by
  have opened : ¬ csv.ret < 0 := by
    intro failed
    rw [gt_find_person_boxes_csv, if_pos failed] at found
    simp only at found
    omega
  have run := run_readByte lc filename .zero csv.data []
  rw [gt_find_person_boxes_csv, if_neg opened] at found ⊢
  cases hf : (recordsFrom [] csv.data).findSome? (parseLine lc filename .zero) with
  | none =>
      simp only [hf] at run
      obtain ⟨line, run⟩ := run
      rw [run] at found
      exact absurd found (show ¬ -ENOENT = 0 by decide)
  | some r =>
      simp only [hf] at run
      obtain ⟨record, mem, parsed⟩ := List.exists_of_findSome?_eq_some hf
      rw [run] at found ⊢
      obtain ⟨save, named, rfl⟩ := exists_save_of_parseLine lc parsed
      obtain ⟨ret, -, out⟩ := parseBoxes_agrees lc save
      refine ⟨record, mem, ?_⟩
      simp only at found ⊢
      rw [out found]
      rw [found] at ret
      cases hs : (fields COMMA save).map trim with
      | nil =>
          rw [hs] at ret
          exact absurd ret (show ¬ 0 = -EINVAL by decide)
      | cons count numbers =>
          rw [hs] at ret named
          simp only [interpret] at ret ⊢
          split at ret
          · exact absurd ret (show ¬ 0 = -EINVAL by decide)
          · next enough =>
              rw [if_neg enough]
              exact ⟨count, numbers, named, not_lt.mp enough, fun _ _ => rfl⟩

/-- The reader is safe and reports no partial record. Whatever the file and the stale bytes
in its buffer, it accesses neither the line nor the struct out of bounds. It reports at most
64 boxes, none if it fails, and if it succeeds exactly the rows that it assigned: those of a
record, which is a line of the file as far as the buffer holds it. -/
theorem gt_find_in_buffer_safe (csv : OpenResult) (filename : Bytes) (stale : LineBuffer) :
    ∃ r assigned, gt_find_in_buffer lc csv filename stale = some (r, assigned) ∧
      r = gt_find_person_boxes_csv lc csv filename ∧
      0 ≤ r.out.count ∧ r.out.count ≤ MAX_GT_BOXES ∧ (r.ret ≠ 0 → r.out.count = 0) ∧
      (r.ret = 0 → assigned = cells r.out.count.toNat ∧
        ∃ line ∈ fileLines csv.data, ∃ record ∈ chunks (LINE_SIZE - 1) line,
          RowsOf lc filename record r.out) := by
  obtain ⟨assigned, run, rows⟩ := gt_find_in_buffer_eq lc csv filename stale
  have bounds := gt_find_count_mem lc csv filename
  refine ⟨_, assigned, run, rfl, bounds.1, bounds.2.1, bounds.2.2, fun found => ⟨rows found, ?_⟩⟩
  obtain ⟨record, mem, reports⟩ := exists_record_of_found lc found
  obtain ⟨line, inFile, piece⟩ := exists_line_of_mem_records mem
  exact ⟨line, inFile, record, piece, reports⟩

end Rows

end PeopleDetection
