import PeopleDetection.Dataset.Annotations
import PeopleDetection.GroundTruth.Format

/-!
# One exported line, read by the firmware

A line of the annotation file starts with its file name and a count, and continues with
digits, decimal points and commas only. The reader cuts a long line, but name, count and
the first 64 boxes always lie before the cut, and no piece behind the cut can be taken
for a record, because every requested name ends in `.bin`.
-/

namespace PeopleDetection

open Library

/-! ## Coordinates -/

section Coordinates

variable (ar : FloatArith)

theorem FloatArith.round_mem {v : ℚ} (h : 0 ≤ v ∧ v ≤ 256) :
    0 ≤ ar.round v ∧ ar.round v ≤ 256 := by
  have lo := ar.exact_of_le 0 (by omega)
  have hi := ar.exact_of_le 256 (by omega)
  push_cast at lo hi
  exact ⟨lo ▸ ar.mono h.1, hi ▸ ar.mono h.2⟩

theorem clamp_mem {v lo hi : ℚ} (h : lo ≤ hi) : lo ≤ clamp v lo hi ∧ clamp v lo hi ≤ hi := by
  rw [clamp]
  split
  · exact ⟨le_refl _, h⟩
  · next below =>
      split
      · exact ⟨h, le_refl _⟩
      · next above => exact ⟨not_lt.mp below, not_lt.mp above⟩

/-- What the firmware can store of a coordinate: between zero and `SIZE`. -/
def InFrame (v : ℚ) : Prop := 0 ≤ v ∧ v ≤ 256

theorem clampBox_inFrame (sx sy : ℚ) (b : BBox) :
    let c := clampBox ar sx sy b
    InFrame c.x ∧ InFrame c.y ∧ InFrame c.w ∧ InFrame c.h := by
  have upper := ar.round_mem (v := SIZE - 1) (by norm_num)
  have corner : ∀ v, InFrame (clamp v 0 (ar.round (SIZE - 1))) := fun v =>
    ⟨(clamp_mem upper.1).1, (clamp_mem upper.1).2.trans upper.2⟩
  have size : ∀ v c, InFrame c → InFrame (clamp v 0 (ar.round (SIZE - c))) := by
    intro v c hc
    have rest := ar.round_mem (v := SIZE - c) ⟨by linarith [hc.2], by linarith [hc.1]⟩
    exact ⟨(clamp_mem rest.1).1, (clamp_mem rest.1).2.trans rest.2⟩
  exact ⟨corner _, corner _, size _ _ (corner _), size _ _ (corner _)⟩

theorem inFrame_of_mem_flat {im : CocoImage} {boxes : List BBox} {v : ℚ}
    (h : v ∈ flat (keptOf ar im boxes)) : InFrame v := by
  simp only [flat, keptOf, List.mem_flatMap, List.mem_filterMap, keepBox,
    Option.ite_none_left_eq_some, Option.some.injEq] at h
  obtain ⟨_, ⟨b, _, _, rfl⟩, hv⟩ := h
  obtain ⟨hx, hy, hw, hh⟩ := clampBox_inFrame ar (ar.round (SIZE / im.width))
    (ar.round (SIZE / im.height)) b
  simp only [List.mem_cons, List.not_mem_nil, or_false] at hv
  rcases hv with rfl | rfl | rfl | rfl <;> assumption

end Coordinates

/-- Rounding to an integer moves a number by at most one half. -/
theorem abs_roundHalfEven_sub_le (q : ℚ) : |(roundHalfEven q : ℚ) - q| ≤ 1 / 2 := by
  have lo := Int.floor_le q
  have hi := Int.lt_floor_add_one q
  rw [abs_le, roundHalfEven]
  split_ifs <;> push_cast <;> constructor <;> linarith

/-- The record is within half a thousandth of the script's value. -/
theorem abs_round3_sub_le (v : ℚ) : |round3 v - v| ≤ 1 / 2000 := by
  have h := abs_le.mp (abs_roundHalfEven_sub_le (1000 * v))
  rw [round3, abs_le]
  constructor <;> linarith [h.1, h.2]

theorem format3_of_inFrame {v : ℚ} (h : InFrame v) :
    ∃ n : Nat, n < 1000000 ∧ format3 v = fixed3 n ∧ round3 v = n / 1000 := by
  have near := abs_le.mp (abs_roundHalfEven_sub_le (1000 * v))
  have lower : -1 < roundHalfEven (1000 * v) := by
    have : (-1 : ℚ) < roundHalfEven (1000 * v) := by linarith [near.1, h.1]
    exact_mod_cast this
  have upper : roundHalfEven (1000 * v) < 1000000 := by
    have : (roundHalfEven (1000 * v) : ℚ) < 1000000 := by linarith [near.2, h.2]
    exact_mod_cast this
  obtain ⟨n, hn⟩ := Int.eq_ofNat_of_zero_le (by omega : 0 ≤ roundHalfEven (1000 * v))
  refine ⟨n, by omega, ?_, ?_⟩
  · rw [format3, if_neg (not_lt.mpr h.1), hn]
    rfl
  · rw [round3, hn]
    rfl

/-! ## Names and texts -/

/-- The file names of the round trip. -/
structure PlainName (name : Bytes) : Prop where
  length : name.length ≤ 255
  comma : COMMA ∉ name
  cr : CR ∉ name
  lf : LF ∉ name
  nul : NUL ∉ name
  leading : ∀ b ∈ name.head?, isBlank b = false
  trailing : ∀ b ∈ name.getLast?, isBlank b = false

/-- A byte that is neither trimmed nor a separator. -/
def isText (b : UInt8) : Bool := isDigit b || b == DOT

theorem isText_of_mem_numeral {n : Nat} {b : UInt8} (h : b ∈ numeral n) : isText b = true := by
  simp [isText, isDigit_of_mem_numeral h]

theorem isText_of_mem_fixed3 {n : Nat} {b : UInt8} (h : b ∈ fixed3 n) : isText b = true := by
  rcases mem_fixed3 h with h | h <;> simp [isText, h]

theorem isText_ne {b c : UInt8} (h : isText b = true) (hc : isText c = false) : b ≠ c := by
  rintro rfl
  rw [h] at hc
  cases hc

/-- What follows the file name on a line. -/
def isPayload (b : UInt8) : Bool := isText b || b == COMMA

theorem not_trailing_of_isPayload {b : UInt8} (h : isPayload b = true) :
    isTrailing b = false := by
  have ne : ∀ c, isPayload c = false → b ≠ c := by
    rintro c hc rfl
    rw [h] at hc
    cases hc
  simp [isTrailing, ne CR (by decide), ne LF (by decide), ne SPACE (by decide),
    ne TAB (by decide)]

theorem trim_eq_self_of_isText {s : Bytes} (h : ∀ b ∈ s, isText b = true) : trim s = s := by
  have keep : lskip s = s := by
    apply lskip_eq_self
    intro b hb
    have hs : b ≠ SPACE := isText_ne (h b (List.mem_of_mem_head? hb)) (by decide)
    have ht : b ≠ TAB := isText_ne (h b (List.mem_of_mem_head? hb)) (by decide)
    simp [isBlank, hs, ht]
  rw [trim, keep]
  apply rstrip_eq_self
  intro b hb
  exact not_trailing_of_isPayload (by simp [isPayload, h b (List.mem_of_mem_getLast? hb)])

theorem mem_of_mem_trim {s : Bytes} {b : UInt8} (h : b ∈ trim s) : b ∈ s :=
  (List.dropWhile_suffix _).subset ((rstrip_isPrefix _).subset h)

theorem stem_isPrefix (name : Bytes) : stem name <+: name := by
  rw [stem]
  split
  · exact List.prefix_refl _
  · next rest h =>
      have suffix := List.dropWhile_suffix (l := name.reverse) (· ≠ DOT)
      rw [h] at suffix
      have := List.reverse_prefix.mpr ((List.suffix_cons _ _).trans suffix)
      simpa using this

theorem not_mem_bin_name {name : Bytes} {b : UInt8} (hb : b ∉ name) (hbin : b ∉ BIN) :
    b ∉ bin_name name := by
  rw [bin_name, List.mem_append, not_or]
  exact ⟨fun hm => hb ((stem_isPrefix name).subset hm), hbin⟩

namespace PlainName

variable {name : Bytes} (h : PlainName name)

include h

theorem comma_not_mem : COMMA ∉ bin_name name := not_mem_bin_name h.comma (by decide)

theorem lf_not_mem : LF ∉ bin_name name := not_mem_bin_name h.lf (by decide)

theorem nul_not_mem : NUL ∉ bin_name name := not_mem_bin_name h.nul (by decide)

theorem length_bin_name_le : (bin_name name).length ≤ 259 := by
  have := (stem_isPrefix name).length_le
  have := h.length
  simp only [bin_name, List.length_append, List.length_cons, List.length_nil]
  omega

theorem trim_bin_name : trim (bin_name name) = bin_name name := by
  have keep : lskip (bin_name name) = bin_name name := by
    apply lskip_eq_self
    intro b hb
    rw [bin_name] at hb
    cases hs : stem name with
    | nil =>
        rw [hs] at hb
        simp only [List.nil_append, List.head?_cons, Option.mem_def, Option.some.injEq] at hb
        exact hb ▸ by decide
    | cons c rest =>
        obtain ⟨tail, ht⟩ := stem_isPrefix name
        rw [hs] at hb ht
        apply h.leading
        rw [← ht]
        simpa using hb
  rw [trim, keep]
  apply rstrip_eq_self
  intro b hb
  rw [bin_name, List.getLast?_append] at hb
  simp at hb
  exact hb ▸ by decide

end PlainName

theorem bin_name_ne_nil (name : Bytes) : bin_name name ≠ [] := by
  simp [bin_name]

theorem bin_name_inj {a b : Bytes} (h : bin_name a = bin_name b) : stem a = stem b :=
  List.append_cancel_right h

/-! ## One line -/

section Line

variable {ar : FloatArith} {im : CocoImage} {boxes : List BBox} {name : Bytes}
  {kept : List BBox}

/-- Boxes as the exporter writes them: in the frame, and few enough to be counted. -/
structure Writable (kept : List BBox) : Prop where
  nonempty : kept ≠ []
  length : kept.length < 10 ^ 19
  inFrame : ∀ v ∈ flat kept, InFrame v

/-- The texts of the coordinates. -/
def texts (kept : List BBox) : List Bytes := (flat kept).map format3

theorem length_flat (kept : List BBox) : (flat kept).length = 4 * kept.length := by
  induction kept with
  | nil => rfl
  | cons b kept ih =>
      rw [flat, List.flatMap_cons, List.length_append, ← flat, ih, List.length_cons]
      simp only [List.length_cons, List.length_nil]
      omega

/-- Coordinate `c` of box `i` is number `4 * i + c`. -/
theorem getElem?_flat (kept : List BBox) {i c : Nat} (hc : c < 4) :
    (flat kept)[4 * i + c]? = kept[i]?.bind fun b => [b.x, b.y, b.w, b.h][c]? := by
  induction kept generalizing i with
  | nil => rfl
  | cons b kept ih =>
      rw [flat, List.flatMap_cons, ← flat]
      cases i with
      | zero =>
          rw [List.getElem?_append_left (by simpa using hc)]
          simp
      | succ i =>
          rw [List.getElem?_append_right (by simp; omega), List.getElem?_cons_succ, ← ih]
          congr 1
          simp only [List.length_cons, List.length_nil]
          omega

namespace Writable

variable (h : Writable kept)

include h

theorem exists_of_mem_texts {t : Bytes} (ht : t ∈ texts kept) :
    ∃ n, n < 1000000 ∧ t = fixed3 n := by
  obtain ⟨v, hv, rfl⟩ := List.mem_map.mp ht
  obtain ⟨n, hn, text, -⟩ := format3_of_inFrame (h.inFrame v hv)
  exact ⟨n, hn, text⟩

theorem texts_ne_nil : texts kept ≠ [] := by
  intro hnil
  have := length_flat kept
  rw [texts, List.map_eq_nil_iff] at hnil
  rw [hnil, List.length_nil] at this
  exact h.nonempty (List.length_eq_zero_iff.mp (by omega))

theorem recordText_eq_intercalate :
    recordText name kept = [COMMA].intercalate (name :: numeral kept.length :: texts kept) := by
  rw [recordText, List.intercalate_cons_of_ne_nil (by simp),
    List.intercalate_cons_of_ne_nil h.texts_ne_nil, texts]
  simp only [List.append_assoc, List.singleton_append]

theorem isText_of_mem_texts {t : Bytes} (ht : t ∈ texts kept) : ∀ b ∈ t, isText b = true := by
  obtain ⟨n, -, rfl⟩ := h.exists_of_mem_texts ht
  exact fun b hb => isText_of_mem_fixed3 hb

/-- What follows the file name on a line consists of digits, points and commas. -/
theorem isPayload_of_mem {b : UInt8}
    (hb : b ∈ COMMA :: (numeral kept.length ++ COMMA :: [COMMA].intercalate (texts kept))) :
    isPayload b = true := by
  rw [List.mem_cons, List.mem_append, List.mem_cons] at hb
  rcases hb with rfl | hb | rfl | hb
  · decide
  · simp [isPayload, isText_of_mem_numeral hb]
  · decide
  · rcases mem_intercalate hb with rfl | ⟨t, ht, hbt⟩
    · decide
    · simp [isPayload, h.isText_of_mem_texts ht b hbt]

end Writable

/-- The last byte of the cut line belongs to the payload, so nothing is stripped. -/
theorem rstrip_take_recordText (plain : PlainName name) (h : Writable kept) :
    rstrip ((recordText (bin_name name) kept).take (LINE_SIZE - 1)) =
      (recordText (bin_name name) kept).take (LINE_SIZE - 1) := by
  have nameLength := plain.length_bin_name_le
  apply rstrip_eq_self
  intro b hb
  rw [recordText, List.take_append, List.take_of_length_le (by simp only [LINE_SIZE]; omega),
    List.getLast?_append_of_ne_nil _ (by simp; omega)] at hb
  exact not_trailing_of_isPayload
    (h.isPayload_of_mem (List.mem_of_mem_take (List.mem_of_getLast? hb)))

/-- The name, the count and 64 boxes fit into the reader's buffer. -/
theorem length_intercalate_take_lt (plain : PlainName name) (h : Writable kept) :
    ([COMMA].intercalate
      (bin_name name :: numeral kept.length :: (texts kept).take 256)).length
        < LINE_SIZE - 1 := by
  have nameLength := plain.length_bin_name_le
  have countLength : (numeral kept.length).length ≤ 19 :=
    length_numeral_le (by decide) h.length
  have body : ([COMMA].intercalate ((texts kept).take 256)).length ≤
      (7 + 1) * ((texts kept).take 256).length := by
    apply length_intercalate_le
    intro p hp
    obtain ⟨n, hn, rfl⟩ := h.exists_of_mem_texts (List.mem_of_mem_take hp)
    exact length_fixed3_le hn
  have rows : ((texts kept).take 256).length ≤ 256 := List.length_take_le _ _
  have body_ne : (texts kept).take 256 ≠ [] := by
    simpa [List.take_eq_nil_iff] using h.texts_ne_nil
  rw [List.intercalate_cons_of_ne_nil (by simp), List.intercalate_cons_of_ne_nil body_ne]
  simp only [List.length_append, List.length_singleton, LINE_SIZE]
  omega

/-- The pieces of a line that survive the reader's buffer: the name, the count and the
first 64 boxes, and possibly more. -/
theorem lineFields_take_recordText (plain : PlainName name) (h : Writable kept) :
    ∃ more, lineFields ((recordText (bin_name name) kept).take (LINE_SIZE - 1)) =
      bin_name name :: numeral kept.length :: ((texts kept).take 256 ++ more) := by
  have clean : ∀ p ∈ bin_name name :: numeral kept.length :: (texts kept).take 256,
      COMMA ∉ p := by
    intro p hp
    rw [List.mem_cons, List.mem_cons] at hp
    obtain rfl | rfl | hp := hp
    · exact plain.comma_not_mem
    · exact fun hc => absurd (isText_of_mem_numeral hc) (by decide)
    · exact fun hc => absurd (h.isText_of_mem_texts (List.mem_of_mem_take hp) _ hc) (by decide)
  have nonempty : ∀ p ∈ bin_name name :: numeral kept.length :: (texts kept).take 256,
      p ≠ [] := by
    intro p hp
    rw [List.mem_cons, List.mem_cons] at hp
    obtain rfl | rfl | hp := hp
    · exact bin_name_ne_nil _
    · exact numeral_ne_nil _
    · obtain ⟨n, -, rfl⟩ := h.exists_of_mem_texts (List.mem_of_mem_take hp)
      exact fixed3_ne_nil n
  obtain ⟨more, cut⟩ := fields_take_intercalate ((texts kept).drop 256) clean nonempty
    (length_intercalate_take_lt plain h)
  rw [List.cons_append, List.cons_append, List.take_append_drop,
    ← h.recordText_eq_intercalate] at cut
  refine ⟨more.map trim, ?_⟩
  have trimmed : ((texts kept).take 256).map trim = (texts kept).take 256 := by
    conv_rhs => rw [← List.map_id ((texts kept).take 256)]
    apply List.map_congr_left
    intro t ht
    exact trim_eq_self_of_isText (h.isText_of_mem_texts (List.mem_of_mem_take ht))
  rw [lineFields, rstrip_take_recordText plain h, cut, List.map_append, List.map_cons,
    List.map_cons, trimmed, plain.trim_bin_name,
    trim_eq_self_of_isText fun b => isText_of_mem_numeral]
  rfl

/-- Behind the cut there is no byte of `.bin`, so no later piece names a file. -/
theorem silent_tail_recordText (plain : PlainName name) (h : Writable kept) (other : Bytes) :
    Silent (bin_name other) (chunks (LINE_SIZE - 1) (recordText (bin_name name) kept)).tail := by
  intro piece hpiece named
  have inName : (110 : UInt8) ∈ bin_name other := by simp [bin_name]
  have mem : bin_name other ∈ lineFields piece := List.mem_of_head? named
  obtain ⟨field, hfield, htrim⟩ := List.mem_map.mp mem
  have inPiece : (110 : UInt8) ∈ piece := by
    rw [← htrim] at inName
    exact (rstrip_isPrefix _).subset (mem_of_mem_fields hfield (mem_of_mem_trim inName))
  have beyond := mem_of_mem_tail_chunks hpiece inPiece
  have nameLength := plain.length_bin_name_le
  rw [recordText, List.drop_append,
    List.drop_of_length_le (by simp only [LINE_SIZE]; omega), List.nil_append] at beyond
  exact absurd (h.isPayload_of_mem (List.mem_of_mem_drop beyond)) (by decide)

/-- The struct holding boxes, each coordinate rounded to three decimals. -/
def roundedRows (boxes : List BBox) : GtBoxes ℚ where
  count := boxes.length
  xywh i k := ((boxes[i]?.bind fun b => [b.x, b.y, b.w, b.h][k]?).map round3).getD 0

/-- The firmware reads back the first 64 boxes of a line. -/
theorem interpret_recordText {lc : Libc ℚ} (reads : lc.ReadsDecimals) (h : Writable kept)
    (more : List Bytes) :
    interpret lc (numeral kept.length :: ((texts kept).take 256 ++ more)) =
      (0, roundedRows (kept.take 64)) := by
  have count : (max 0 (min (lc.atoi (numeral kept.length)) 64)).toNat = min kept.length 64 := by
    rw [reads.atoi]
    omega
  have total : (texts kept).length = 4 * kept.length := by
    rw [texts, List.length_map, length_flat]
  simp only [interpret, count]
  rw [if_neg (by simp only [List.length_append, List.length_take]; omega), Prod.mk.injEq]
  refine ⟨rfl, GtBoxes.ext ?_ ?_⟩
  · simp only [boxRows, roundedRows, List.length_take]
    omega
  · funext i k
    simp only [boxRows, roundedRows]
    by_cases inside : i < min kept.length 64 ∧ k < 4
    · have position : 4 * i + k < (texts kept).length := by omega
      rw [if_pos inside, List.getD_eq_getElem?_getD,
        List.getElem?_append_left (by rw [List.length_take]; omega),
        List.getElem?_take_of_lt (by omega), List.getElem?_take_of_lt (by omega), texts,
        List.getElem?_map, getElem?_flat kept inside.2, ← getElem?_flat kept inside.2]
      rw [texts, List.length_map] at position
      obtain ⟨n, -, text, value⟩ :=
        format3_of_inFrame (h.inFrame _ (List.getElem_mem position))
      rw [List.getElem?_eq_getElem position, Option.map_some, Option.map_some, Option.getD_some,
        Option.getD_some, text, value, reads.strtof]
    · rw [if_neg inside]
      by_cases hi : i < (kept.take 64).length
      · have hk : ¬ k < 4 := fun hk => inside ⟨by rw [List.length_take] at hi; omega, hk⟩
        rw [List.getElem?_eq_getElem hi, Option.bind_some,
          List.getElem?_eq_none (by simp; omega)]
        rfl
      · rw [List.getElem?_eq_none (by omega)]
        rfl

end Line

end PeopleDetection
