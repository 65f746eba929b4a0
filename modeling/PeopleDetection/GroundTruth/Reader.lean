import PeopleDetection.CString
import PeopleDetection.Library.EarlyExit

/-!
# The firmware's ground-truth reader

`gt_find_person_boxes_csv` reads the annotation file byte by byte, assembles lines in
a buffer of 4096 bytes, tokenizes each line in place and fills the result struct while
it validates the line that carries the requested file name. `count_csv_lines` counts
the newlines of the same file.

A file is seen through `OpenResult`: what `fs_open` returns, and the bytes that the
successive `fs_read` calls deliver until one of them returns 0 or an error. Both
readers treat the two endings alike. The C library's number parsing is a parameter.
Every call records what it did with its file handle.
-/

namespace PeopleDetection

open Library

/-- Return codes of the reader. -/
abbrev ENOENT : Int := 2
abbrev EINVAL : Int := 22

abbrev MAX_GT_BOXES : Nat := 64

/-- `sizeof(line)`. -/
abbrev LINE_SIZE : Nat := 4096

/-- The number parsers of the C library, for a `float` type `F`. -/
structure Libc (F : Type) where
  atoi : Bytes → Int
  strtof : Bytes → F

/-- The outcome of `fs_open`, and the bytes that one-byte reads then deliver. -/
structure OpenResult where
  ret : Int
  data : Bytes

/-- The file and directory objects of the three functions that open anything. -/
inductive Handle where
  | csvCount
  | csvLookup
  | image
  | dir
  deriving DecidableEq, Repr

/-- What happens to a handle. -/
inductive FsEvent where
  | opened (h : Handle)
  | openFailed (h : Handle)
  | closed (h : Handle)
  deriving DecidableEq, Repr

/-- `struct gt_boxes`. Cells outside `[0, 64) × [0, 4)` do not exist in the program;
that no write reaches them is a theorem about the reader. -/
@[ext] structure GtBoxes (F : Type) where
  count : Int
  xywh : Nat → Nat → F

/-- What a lookup leaves behind. -/
structure Lookup (F : Type) where
  ret : Int
  out : GtBoxes F
  trace : List FsEvent

section Program

variable {F : Type}

/-- `memset(out, 0, sizeof(*out))`. -/
def GtBoxes.zero [Zero F] : GtBoxes F := ⟨0, fun _ _ => 0⟩

/-- `out->xywh[i][k] = v`. -/
def GtBoxes.set (out : GtBoxes F) (i k : Nat) (v : F) : GtBoxes F :=
  { out with xywh := fun i' k' => if i' = i ∧ k' = k then v else out.xywh i' k' }

/-- One `strtok_r(…, ",", &save)` followed by `lskip` and `rstrip` of the token. -/
def nextField (save : Bytes) : Option (Bytes × Bytes) :=
  (strtok_r COMMA save).map fun (tok, save) => (rstrip (lskip tok), save)

/-- The cells visited by `for (i < n) for (k < 4)`, in order. -/
def cells (n : Nat) : List (Nat × Nat) :=
  (List.range n).flatMap fun i => (List.range 4).map fun k => (i, k)

/-- The body of the two nested loops. A missing token returns `-EINVAL`. -/
def readCell (lc : Libc F) (s : GtBoxes F × Bytes) (cell : Nat × Nat) :
    Flow (GtBoxes F × Bytes) Unit :=
  match nextField s.2 with
  | none => .stop () s
  | some (tok, save) => .next (s.1.set cell.1 cell.2 (lc.strtof tok), save)

/-- `if (n < 0) n = 0; if (n > MAX_GT_BOXES) n = MAX_GT_BOXES;`. -/
def clampCount (n : Int) : Nat :=
  let n := if n < 0 then 0 else n
  let n := if n > MAX_GT_BOXES then (MAX_GT_BOXES : Int) else n
  n.toNat

/-- The part of the line that follows a matching file name. The result is the value
the function returns from here, together with the struct filled so far. -/
def parseBoxes (lc : Libc F) (save : Bytes) (out : GtBoxes F) : Int × GtBoxes F :=
  match nextField save with
  | none => (-EINVAL, out)
  | some (tok, save) =>
      let n := clampCount (lc.atoi tok)
      match Flow.run (readCell lc) (out, save) (cells n) with
      | .stop _ s => (-EINVAL, s.1)
      | .next s => (0, { s.1 with count := n })

/-- What the function does with a complete buffer: `none` is `continue`, otherwise the
loop is left with the given return value. -/
def parseLine (lc : Libc F) (filename : Bytes) (out : GtBoxes F) (buffer : Bytes) :
    Option (Int × GtBoxes F) :=
  let line := rstrip (cstring buffer)
  if line = [] then none
  else
    match nextField line with
    | none => none
    | some (tok, save) => if tok = filename then some (parseBoxes lc save out) else none

/-- One turn of the reading loop, after `fs_read` delivered `ch`. The state is the
contents of `line[0 .. pos)`, so `pos` is its length. -/
def readByte (lc : Libc F) (filename : Bytes) (out : GtBoxes F) (line : Bytes) (ch : UInt8) :
    Flow Bytes (Int × GtBoxes F) :=
  if ch = LF ∨ line.length = LINE_SIZE - 1 then
    match parseLine lc filename out line with
    | none => .next []
    | some r => .stop r []
  else .next (line ++ [ch])

/-- `gt_find_person_boxes_csv`, with the file system's answers in `csv`. -/
def gt_find_person_boxes_csv [Zero F] (lc : Libc F) (csv : OpenResult) (filename : Bytes) :
    Lookup F :=
  if csv.ret < 0 then
    { ret := csv.ret, out := .zero, trace := [.openFailed .csvLookup] }
  else
    match Flow.run (readByte lc filename .zero) [] csv.data with
    | .next _ =>
        { ret := -ENOENT, out := .zero, trace := [.opened .csvLookup, .closed .csvLookup] }
    | .stop r _ =>
        { ret := r.1, out := r.2, trace := [.opened .csvLookup, .closed .csvLookup] }

end Program

/-- The value and the trace of `count_csv_lines`. -/
structure LineCount where
  ret : Int
  trace : List FsEvent

/-- `while (fs_read(&file, &ch, 1) == 1) if (ch == '\n') lines++;`. -/
def count_csv_lines (csv : OpenResult) : LineCount :=
  if csv.ret < 0 then { ret := csv.ret, trace := [.openFailed .csvCount] }
  else
    { ret := csv.data.foldl (fun lines ch => if ch = LF then lines + 1 else lines) 0
      trace := [.opened .csvCount, .closed .csvCount] }

/-! ## What the pieces compute -/

/-- The trimming that every token undergoes. -/
def trim (field : Bytes) : Bytes := rstrip (lskip field)

section Fields

variable {save : Bytes}

theorem fields_of_nextField_none (h : nextField save = none) : fields COMMA save = [] :=
  fields_of_strtok_r_none (by simpa [nextField] using h)

theorem fields_of_nextField_some {r : Bytes × Bytes} (h : nextField save = some r) :
    ∃ field, fields COMMA save = field :: fields COMMA r.2 ∧ r.1 = trim field := by
  simp only [nextField, Option.map_eq_some_iff, Prod.exists] at h
  obtain ⟨field, save', hs, rfl⟩ := h
  exact ⟨field, fields_of_strtok_r_some hs, rfl⟩

/-- Reading on succeeds as long as fields remain. -/
theorem nextField_of_fields {field : Bytes} {more : List Bytes}
    (h : fields COMMA save = field :: more) :
    ∃ rest, nextField save = some (trim field, rest) ∧ fields COMMA rest = more := by
  cases hn : nextField save with
  | none =>
      rw [fields_of_nextField_none hn] at h
      cases h
  | some r =>
      obtain ⟨f, hf, htok⟩ := fields_of_nextField_some hn
      rw [h, List.cons.injEq] at hf
      obtain ⟨rfl, rfl⟩ := hf
      exact ⟨r.2, by rw [← htok], rfl⟩

theorem nextField_eq_none_iff : nextField save = none ↔ fields COMMA save = [] := by
  refine ⟨fields_of_nextField_none, fun h => ?_⟩
  cases hn : nextField save with
  | none => rfl
  | some r =>
      obtain ⟨f, hf, _⟩ := fields_of_nextField_some hn
      rw [h] at hf
      cases hf

end Fields

/-- The clamp is the projection of an integer onto `[0, 64]`. -/
theorem clampCount_eq (n : Int) : (clampCount n : Int) = max 0 (min n 64) := by
  simp only [clampCount, MAX_GT_BOXES]
  split_ifs <;> omega

/-- Row-major order: the `j`-th visited cell is column `j % 4` of row `j / 4`. -/
theorem cells_eq (n : Nat) :
    cells n = (List.range (4 * n)).map fun j => (j / 4, j % 4) := by
  induction n with
  | zero => rfl
  | succ n ih =>
      have last : (List.range 4).map (fun k => (n, k)) =
          (List.range 4).map (fun k => ((4 * n + k) / 4, (4 * n + k) % 4)) := by
        apply List.map_congr_left
        intro k hk
        rw [List.mem_range] at hk
        ext <;> dsimp only <;> omega
      have head : cells (n + 1) = cells n ++ (List.range 4).map fun k => (n, k) := by
        simp only [cells, List.range_succ (n := n), List.flatMap_append, List.flatMap_cons,
          List.flatMap_nil, List.append_nil]
      rw [head, ih, last, Nat.mul_succ, List.range_add, List.map_append, List.map_map]
      rfl

theorem count_csv_lines_ret {csv : OpenResult} (h : ¬ csv.ret < 0) :
    (count_csv_lines csv).ret = csv.data.count LF := by
  have loop : ∀ (data : Bytes) (n : Int),
      data.foldl (fun lines ch => if ch = LF then lines + 1 else lines) n =
        n + data.count LF := by
    intro data
    induction data with
    | nil => simp
    | cons ch data ih =>
        intro n
        rw [List.foldl_cons, ih, List.count_cons]
        by_cases hc : ch = LF
        · simp [hc]
          omega
        · simp [hc]
  simp [count_csv_lines, h, loop]

end PeopleDetection
