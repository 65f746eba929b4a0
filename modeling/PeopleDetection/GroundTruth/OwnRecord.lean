import PeopleDetection.GroundTruth.RoundTrip

/-!
# An annotation file with one record

For every plain name there is an annotation file that has a record for this name and for
no other. The record lists more numbers than any count can ask for.
-/

namespace PeopleDetection

open Library

variable {name : Bytes}

theorem PlainName.trim_eq (h : PlainName name) : trim name = name := by
  rw [trim, lskip_eq_self h.leading]
  apply rstrip_eq_self
  intro b hb
  have hcr : b ≠ CR := fun e => h.cr (e ▸ List.mem_of_getLast? hb)
  have hlf : b ≠ LF := fun e => h.lf (e ▸ List.mem_of_getLast? hb)
  have blank := h.trailing b hb
  simp only [isBlank, Bool.or_eq_false_iff] at blank
  simp [isTrailing, hcr, hlf, blank.1, blank.2]

/-- The fields `name,0,0,…` with enough numbers for every count. -/
def ownFields (name : Bytes) : List Bytes := name :: List.replicate 257 [48]

/-- The line of these fields. -/
def ownRecord (name : Bytes) : Bytes := [COMMA].intercalate (ownFields name)

theorem ownRecord_eq : ownRecord name =
    name ++ [COMMA] ++ [COMMA].intercalate (List.replicate 257 [48]) := by
  have some : List.replicate 257 [(48 : UInt8)] ≠ [] := List.ne_nil_of_length_pos (by
    rw [List.length_replicate]
    decide)
  rw [ownRecord, ownFields, List.intercalate_cons_of_ne_nil some]

theorem mem_zeros {b : UInt8} (h : b ∈ [COMMA].intercalate (List.replicate 257 [48])) :
    b = COMMA ∨ b = 48 := by
  rcases mem_intercalate h with rfl | ⟨p, hp, hb⟩
  · exact Or.inl rfl
  · rw [List.eq_of_mem_replicate hp, List.mem_singleton] at hb
    exact Or.inr hb

theorem not_mem_ownRecord {b : UInt8} (hname : b ∉ name) (hc : b ≠ COMMA) (hz : b ≠ 48) :
    b ∉ ownRecord name := by
  rw [ownRecord_eq]
  intro h
  rw [List.mem_append, List.mem_append, List.mem_singleton] at h
  rcases h with (h | h) | h
  · exact hname h
  · exact hc h
  · exact (mem_zeros h).elim hc hz

theorem length_ownRecord_le (h : PlainName name) : (ownRecord name).length ≤ LINE_SIZE - 1 := by
  have zeros : ([COMMA].intercalate (List.replicate 257 [(48 : UInt8)])).length ≤
      (1 + 1) * (List.replicate 257 [(48 : UInt8)]).length :=
    length_intercalate_le fun p hp => by rw [List.eq_of_mem_replicate hp]; rfl
  have := h.length
  rw [List.length_replicate] at zeros
  rw [ownRecord_eq]
  simp only [List.length_append, List.length_singleton, LINE_SIZE]
  omega

theorem lineFields_ownRecord (h : PlainName name) (nonempty : name ≠ []) :
    lineFields (ownRecord name) = ownFields name := by
  have strip : rstrip (ownRecord name) = ownRecord name := by
    apply rstrip_eq_self
    intro b hb
    rw [ownRecord_eq, List.getLast?_append_of_ne_nil _ (by decide)] at hb
    rcases mem_zeros (List.mem_of_getLast? hb) with rfl | rfl <;> decide
  have split : fields COMMA (ownRecord name) = ownFields name := by
    apply fields_intercalate
    · intro p hp
      rcases List.mem_cons.mp hp with rfl | hp
      · exact h.comma
      · rw [List.eq_of_mem_replicate hp]
        decide
    · intro p hp
      rcases List.mem_cons.mp hp with rfl | hp
      · exact nonempty
      · rw [List.eq_of_mem_replicate hp]
        decide
  rw [lineFields, strip, split, ownFields, List.map_cons, h.trim_eq, List.map_replicate]
  rfl

variable {F : Type} [Zero F] (lc : Libc F)

theorem records_ownRecord (h : PlainName name) :
    records (ownRecord name ++ [LF]) = [ownRecord name] := by
  have clean : LF ∉ ownRecord name := not_mem_ownRecord h.lf (by decide) (by decide)
  have := recordsFrom_append_LF clean [] [] (Nat.zero_le _)
  rw [List.nil_append, chunks_of_le (length_ownRecord_le h)] at this
  rw [records, this]
  rfl

theorem gt_find_ownRecord (h : PlainName name) (other : Bytes) :
    (gt_find_person_boxes_csv lc ⟨0, ownRecord name ++ [LF]⟩ other).Agrees
      (answer lc [ownRecord name] other) := by
  have clean : NUL ∉ ownRecord name ++ [LF] := by
    rw [List.mem_append, not_or]
    exact ⟨not_mem_ownRecord h.nul (by decide) (by decide), by decide⟩
  rw [← records_ownRecord h]
  exact gt_find_agrees_answer lc (show ¬ (0 : Int) < 0 by decide) clean other

/-- The record is found under its own name, whatever `atoi` makes of its count. -/
theorem found_ownRecord (h : PlainName name) (nonempty : name ≠ []) :
    ¬ (gt_find_person_boxes_csv lc ⟨0, ownRecord name ++ [LF]⟩ name).ret < 0 := by
  have named : namedFile (ownRecord name) = some name := by
    rw [namedFile, lineFields_ownRecord h nonempty]
    rfl
  rw [(gt_find_ownRecord lc h name).ret, answer_cons_of_named lc named,
    lineFields_ownRecord h nonempty, ownFields, List.tail_cons, List.replicate_succ]
  simp only [interpret, List.length_replicate]
  rw [if_neg (by omega)]
  exact Int.lt_irrefl 0

/-- No other name is found. -/
theorem missing_ownRecord (h : PlainName name) (nonempty : name ≠ []) {other : Bytes}
    (ne : other ≠ name) :
    (gt_find_person_boxes_csv lc ⟨0, ownRecord name ++ [LF]⟩ other).ret < 0 := by
  have unnamed : namedFile (ownRecord name) ≠ some other := by
    rw [namedFile, lineFields_ownRecord h nonempty]
    exact fun h => ne (Option.some.inj h).symm
  rw [(gt_find_ownRecord lc h other).ret, answer_cons_of_ne lc unnamed, answer_nil]
  exact show (-ENOENT : Int) < 0 by decide

theorem count_csv_lines_ownRecord (name : Bytes) :
    0 < (count_csv_lines ⟨0, ownRecord name ++ [LF]⟩).ret := by
  rw [count_csv_lines_ret (show ¬ (0 : Int) < 0 by decide), List.count_append]
  simp only [List.count_singleton_self]
  omega

end PeopleDetection
