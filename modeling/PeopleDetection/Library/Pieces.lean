import Mathlib.Data.List.Basic
import Mathlib.Data.List.DropRight

/-!
# Separated text and bounded line buffers

`fields` splits a list at a separator and forgets the empty pieces, the convention of
C's `strtok`. `chunks` describes what a line buffer of bounded size makes of a line:
the line is cut into pieces of the buffer's size, and the element that finds the
buffer full is lost at every cut.
-/

namespace PeopleDetection.Library

variable {α : Type*}

section Fields

variable [DecidableEq α] {sep : α} {xs ys : List α}

/-- The non-empty pieces between separators. -/
def fields (sep : α) (xs : List α) : List (List α) :=
  (xs.splitOn sep).filter (· ≠ [])

@[simp] theorem fields_nil : fields sep ([] : List α) = [] := by
  simp [fields]

@[simp] theorem fields_cons_sep : fields sep (sep :: xs) = fields sep xs := by
  simp [fields, List.splitOn_cons_eq_if_modifyHead]

/-- A piece without separators is a field once a separator follows it. -/
theorem fields_append_cons_sep (clean : sep ∉ xs) (nonempty : xs ≠ []) :
    fields sep (xs ++ sep :: ys) = xs :: fields sep ys := by
  simp [fields, List.splitOn_append_cons_self_of_not_mem clean, nonempty]

theorem fields_eq_singleton (clean : sep ∉ xs) (nonempty : xs ≠ []) :
    fields sep xs = [xs] := by
  simp [fields, List.splitOn_eq_singleton clean, nonempty]

/-- Splitting at a separator splits the list of fields. -/
theorem fields_append_sep : fields sep (xs ++ sep :: ys) = fields sep xs ++ fields sep ys := by
  simp [fields, List.splitOn_append_cons_self]

/-- Leading separators do not matter. -/
theorem fields_dropWhile_sep : fields sep (xs.dropWhile (· = sep)) = fields sep xs := by
  induction xs with
  | nil => rfl
  | cons x xs ih =>
      by_cases hx : x = sep
      · subst hx
        rw [List.dropWhile_cons_of_pos (by simp), fields_cons_sep, ih]
      · rw [List.dropWhile_cons_of_neg (by simpa using hx)]

/-- Pieces joined by single separators are read back as the fields. -/
theorem fields_intercalate {pieces : List (List α)} (clean : ∀ p ∈ pieces, sep ∉ p)
    (nonempty : ∀ p ∈ pieces, p ≠ []) : fields sep ([sep].intercalate pieces) = pieces := by
  by_cases h : pieces = []
  · subst h
    simp
  · rw [fields, List.splitOn_intercalate sep clean h]
    exact List.filter_eq_self.mpr fun p hp => by simpa using nonempty p hp

/-- A list is its pieces, each followed by a separator except the last one. -/
theorem exists_splitOn_eq (sep : α) (xs : List α) :
    ∃ init last, xs.splitOn sep = init ++ [last] ∧ xs = init.flatMap (· ++ [sep]) ++ last ∧
      sep ∉ last ∧ ∀ l ∈ init, sep ∉ l := by
  induction xs with
  | nil => exact ⟨[], [], by simp, rfl, by simp, by simp⟩
  | cons x xs ih =>
      obtain ⟨init, last, split, join, cleanLast, cleanInit⟩ := ih
      rw [List.splitOn_cons_eq_if_modifyHead, split]
      by_cases hx : x = sep
      · subst hx
        refine ⟨[] :: init, last, by simp, by simp [← join], cleanLast, ?_⟩
        simpa using cleanInit
      · have hx' : sep ≠ x := fun h => hx h.symm
        cases init with
        | nil => exact ⟨[], x :: last, by simp [hx], by simpa using join,
            by simp [hx', cleanLast], by simp⟩
        | cons l init =>
            refine ⟨(x :: l) :: init, last, by simp [hx], by simpa using join, cleanLast, ?_⟩
            simpa [hx'] using cleanInit

/-- A field is a piece of the list. -/
theorem mem_of_mem_fields {field : List α} (hf : field ∈ fields sep xs) {a : α}
    (ha : a ∈ field) : a ∈ xs := by
  obtain ⟨init, last, split, join, -, -⟩ := exists_splitOn_eq sep xs
  have hm : field ∈ xs.splitOn sep := List.mem_of_mem_filter hf
  rw [split, List.mem_append, List.mem_singleton] at hm
  rw [join, List.mem_append, List.mem_flatMap]
  rcases hm with hm | rfl
  · exact Or.inl ⟨field, hm, List.mem_append_left _ ha⟩
  · exact Or.inr ha

end Fields

section Joining

variable {sep : α} {ps qs : List (List α)}

theorem intercalate_append (hp : ps ≠ []) (hq : qs ≠ []) :
    [sep].intercalate (ps ++ qs) = [sep].intercalate ps ++ sep :: [sep].intercalate qs := by
  induction ps with
  | nil => exact absurd rfl hp
  | cons p ps ih =>
      by_cases h : ps = []
      · subst h
        rw [List.singleton_append, List.intercalate_cons_of_ne_nil hq, List.intercalate_singleton,
          List.append_assoc, List.singleton_append]
      · rw [List.cons_append, List.intercalate_cons_of_ne_nil (by simp [h]), ih h,
          List.intercalate_cons_of_ne_nil h]
        simp only [List.append_assoc]

theorem mem_intercalate {a : α} (h : a ∈ [sep].intercalate ps) :
    a = sep ∨ ∃ p ∈ ps, a ∈ p := by
  induction ps with
  | nil => cases h
  | cons p ps ih =>
      by_cases hne : ps = []
      · subst hne
        rw [List.intercalate_singleton] at h
        exact Or.inr ⟨p, by simp, h⟩
      · rw [List.intercalate_cons_of_ne_nil hne, List.append_assoc, List.mem_append,
          List.singleton_append, List.mem_cons] at h
        rcases h with h | rfl | h
        · exact Or.inr ⟨p, by simp, h⟩
        · exact Or.inl rfl
        · rcases ih h with rfl | ⟨q, hq, ha⟩
          · exact Or.inl rfl
          · exact Or.inr ⟨q, List.mem_cons_of_mem _ hq, ha⟩

/-- Joining pieces of at most `k` elements takes at most `k + 1` elements each. -/
theorem length_intercalate_le {k : Nat} (h : ∀ p ∈ ps, p.length ≤ k) :
    ([sep].intercalate ps).length ≤ (k + 1) * ps.length := by
  induction ps with
  | nil => exact Nat.zero_le _
  | cons p ps ih =>
      have head := h p (by simp)
      have tail := ih fun q hq => h q (List.mem_cons_of_mem _ hq)
      rw [List.length_cons, Nat.mul_succ]
      by_cases hne : ps = []
      · subst hne
        rw [List.intercalate_singleton]
        omega
      · rw [List.intercalate_cons_of_ne_nil hne]
        simp only [List.length_append, List.length_singleton]
        omega

variable [DecidableEq α]

/-- Cutting joined pieces behind the first `ps` keeps these as fields, whatever is left
of the following pieces. -/
theorem fields_take_intercalate (qs : List (List α)) {n : Nat} (clean : ∀ p ∈ ps, sep ∉ p)
    (nonempty : ∀ p ∈ ps, p ≠ []) (room : ([sep].intercalate ps).length < n) :
    ∃ more, fields sep (([sep].intercalate (ps ++ qs)).take n) = ps ++ more := by
  by_cases hq : qs = []
  · subst hq
    refine ⟨[], ?_⟩
    rw [List.append_nil, List.take_of_length_le (by omega),
      fields_intercalate clean nonempty]
  · by_cases hp : ps = []
    · exact ⟨fields sep (([sep].intercalate qs).take n), by simp [hp]⟩
    · rw [intercalate_append hp hq, List.take_append, List.take_of_length_le (by omega)]
      obtain ⟨m, hm⟩ : ∃ m, n - ([sep].intercalate ps).length = m + 1 :=
        ⟨n - ([sep].intercalate ps).length - 1, by omega⟩
      rw [hm, List.take_succ_cons, fields_append_sep, fields_intercalate clean nonempty]
      exact ⟨_, rfl⟩

end Joining

section Chunks

variable {n : Nat} {xs ys : List α} {x : α}

/-- The contents of a buffer of `n` elements at each point where it is processed, for
a line `xs`: a full buffer is processed when the next element arrives, which is lost. -/
def chunks (n : Nat) (xs : List α) : List (List α) :=
  if xs.length ≤ n then [xs] else xs.take n :: chunks n (xs.drop (n + 1))
termination_by xs.length
decreasing_by
  rw [List.length_drop]
  omega

theorem chunks_of_le (h : xs.length ≤ n) : chunks n xs = [xs] := by
  rw [chunks, if_pos h]

theorem chunks_of_lt (h : n < xs.length) :
    chunks n xs = xs.take n :: chunks n (xs.drop (n + 1)) := by
  rw [chunks, if_neg (Nat.not_le.mpr h)]

/-- A full buffer followed by one more element is processed by itself. -/
theorem chunks_append_cons (full : xs.length = n) :
    chunks n (xs ++ x :: ys) = xs :: chunks n ys := by
  rw [chunks_of_lt (by simp; omega), List.take_append_of_le_length (by omega),
    List.take_of_length_le (by omega), ← full]
  congr 2
  rw [List.drop_append]
  simp

theorem chunks_ne_nil (n : Nat) (xs : List α) : chunks n xs ≠ [] := by
  rw [chunks]
  split <;> simp

/-- The first piece of a line is the line cut to the size of the buffer. -/
theorem chunks_eq_take_cons_tail (n : Nat) (xs : List α) :
    chunks n xs = xs.take n :: (chunks n xs).tail := by
  by_cases h : xs.length ≤ n
  · rw [chunks_of_le h, List.take_of_length_le h]
    rfl
  · rw [chunks_of_lt (Nat.not_le.mp h)]
    rfl

/-- Dropping the last piece of a line leaves nothing, or the first piece and later ones. -/
theorem dropLast_chunks_of_lt (h : n < xs.length) :
    (chunks n xs).dropLast = xs.take n :: (chunks n xs).tail.dropLast := by
  conv_lhs => rw [chunks_eq_take_cons_tail]
  rw [chunks_of_lt h, List.tail_cons, List.dropLast_cons_of_ne_nil (chunks_ne_nil _ _)]

/-- The later pieces of a line come from what lies beyond the buffer. -/
theorem mem_of_mem_tail_chunks {piece : List α} (h : piece ∈ (chunks n xs).tail)
    {a : α} (ha : a ∈ piece) : a ∈ xs.drop n := by
  induction xs using chunks.induct n with
  | case1 xs hle => simp [chunks_of_le hle] at h
  | case2 xs hgt ih =>
      have lt : n < xs.length := Nat.not_le.mp hgt
      rw [chunks_of_lt lt, List.tail_cons, chunks_eq_take_cons_tail, List.mem_cons] at h
      have shift : ∀ b, b ∈ xs.drop (n + 1) → b ∈ xs.drop n := by
        intro b hb
        rw [← List.drop_drop] at hb
        exact List.mem_of_mem_drop hb
      rcases h with rfl | h
      · exact shift a (List.mem_of_mem_take ha)
      · exact shift a (List.mem_of_mem_drop (ih h))

end Chunks
end PeopleDetection.Library
