import PeopleDetection.Dataset.Annotations

/-!
# The image exporter

`transform_dataset_to_bin` names its output files by replacing substrings of the input
path: every `jpg` becomes `bin`, and the input directory disappears. For an image name
with the single `jpg` of its extension this is the name that the annotation exporter
uses.
-/

namespace PeopleDetection

/-- `str.replace` behind the first `k` characters, which belong to a replaced occurrence. -/
def replaceFrom (old new : Bytes) : Nat → Bytes → Bytes
  | _, [] => []
  | k + 1, _ :: s => replaceFrom old new k s
  | 0, b :: s =>
      if old <+: b :: s then new ++ replaceFrom old new (old.length - 1) s
      else b :: replaceFrom old new 0 s

/-- `s.replace(old, new)` for a non-empty `old`. -/
def replace (old new s : Bytes) : Bytes := replaceFrom old new 0 s

/-- The texts `"jpg"`, `"bin"` and `"coco/val2017"`. -/
abbrev JPG_TEXT : Bytes := [106, 112, 103]
abbrev BIN_TEXT : Bytes := [98, 105, 110]
abbrev COCO : Bytes := [99, 111, 99, 111]
abbrev VAL2017 : Bytes := [118, 97, 108, 50, 48, 49, 55]
abbrev IMAGE_DIRECTORY : Bytes := COCO ++ SLASH :: VAL2017

/-- The `new_name` that `save_bin` computes for a path. -/
def new_name (file : Bytes) : Bytes :=
  replace (IMAGE_DIRECTORY ++ [SLASH]) [] (replace JPG_TEXT BIN_TEXT file)

/-- The output name for an image of `directory.glob("*.jpg")`. -/
def saved_name (jpg_name : Bytes) : Bytes := new_name (IMAGE_DIRECTORY ++ SLASH :: jpg_name)

/-! ## Replacing -/

section Replace

variable {old new s t : Bytes} {sep : UInt8}

/-- A string without an occurrence is left alone. -/
theorem replace_of_not_infix (h : ¬ old <:+: s) : replace old new s = s := by
  rw [replace]
  induction s with
  | nil => rfl
  | cons b s ih =>
      have here : ¬ old <+: b :: s := fun hp => h hp.isInfix
      have later : ¬ old <:+: s := fun hi => h (hi.trans (List.suffix_cons b s).isInfix)
      rw [replaceFrom, if_neg here, ih later]

theorem mem_of_mem_replaceFrom {k : Nat} {b : UInt8} (h : b ∈ replaceFrom old new k s) :
    b ∈ s ∨ b ∈ new := by
  induction s generalizing k with
  | nil => simp [replaceFrom] at h
  | cons c s ih =>
      have later : ∀ {k : Nat}, b ∈ replaceFrom old new k s → b ∈ c :: s ∨ b ∈ new := fun h =>
        (ih h).imp_left (List.mem_cons_of_mem c)
      cases k with
      | succ k => exact later h
      | zero =>
          rw [replaceFrom] at h
          split at h
          · exact (List.mem_append.mp h).elim Or.inr later
          · cases List.mem_cons.mp h with
            | inl here => exact Or.inl (here ▸ List.mem_cons_self)
            | inr h => exact later h

/-- Replacing by another text of the same length changes every string with an occurrence. -/
theorem replace_eq_self_iff (same : old.length = new.length) (ne : old ≠ new) :
    replace old new s = s ↔ ¬ old <:+: s := by
  refine ⟨fun h => ?_, replace_of_not_infix⟩
  rw [replace] at h
  induction s with
  | nil =>
      intro hi
      rw [List.infix_nil] at hi
      subst hi
      exact ne (List.length_eq_zero_iff.mp same.symm).symm
  | cons b s ih =>
      rw [replaceFrom] at h
      split at h
      · next here =>
          -- the text would start with both strings
          have there : new <+: b :: s := h ▸ List.prefix_append _ _
          exact absurd ((List.prefix_of_prefix_length_le here there same.le).eq_of_length same) ne
      · next here =>
          rw [List.infix_cons_iff, not_or]
          exact ⟨here, ih (List.cons.inj h).2⟩

theorem replaceFrom_append (k : Nat) (s t : Bytes) (h : s.length = k) :
    replaceFrom old new k (s ++ t) = replaceFrom old new 0 t := by
  induction s generalizing k with
  | nil =>
      subst h
      rfl
  | cons b s ih =>
      subst h
      exact ih s.length rfl

/-- An occurrence at the start is replaced. -/
theorem replace_append_of_ne_nil (nonempty : old ≠ []) (t : Bytes) :
    replace old new (old ++ t) = new ++ replace old new t := by
  obtain ⟨b, rest, rfl⟩ := List.exists_cons_of_ne_nil nonempty
  rw [replace, List.cons_append, replaceFrom, ← List.cons_append,
    if_pos (List.prefix_append _ _), replaceFrom_append _ rest t (by simp)]
  rfl

theorem prefix_append_sep (clean : sep ∉ old) : old <+: s ++ sep :: t ↔ old <+: s := by
  refine ⟨fun h => ?_, List.prefix_append_of_prefix⟩
  have front : s ++ [sep] <+: s ++ sep :: t := by simp
  rcases List.prefix_or_prefix_of_prefix h front with h | h
  · rcases List.prefix_concat_iff.mp h with rfl | h
    · exact absurd (by simp) clean
    · exact h
  · exact absurd (h.subset (by simp)) clean

/-- An occurrence does not extend across a byte that it does not contain. -/
theorem replaceFrom_append_sep (nonempty : old ≠ []) (clean : sep ∉ old) (k : Nat)
    (h : k ≤ s.length) :
    replaceFrom old new k (s ++ sep :: t) =
      replaceFrom old new k s ++ sep :: replaceFrom old new 0 t := by
  induction s generalizing k with
  | nil =>
      obtain rfl : k = 0 := by simpa using h
      have off : ¬ old <+: sep :: t := fun hp =>
        nonempty (List.prefix_nil.mp ((prefix_append_sep (s := []) clean).mp hp))
      simp only [List.nil_append, replaceFrom, if_neg off]
  | cons b s ih =>
      cases k with
      | succ k => exact ih k (by simpa using h)
      | zero =>
          have same : old <+: b :: (s ++ sep :: t) ↔ old <+: b :: s :=
            prefix_append_sep (s := b :: s) clean
          rw [List.cons_append, replaceFrom, replaceFrom]
          by_cases hp : old <+: b :: s
          · have room : old.length - 1 ≤ s.length := by
              have := hp.length_le
              rw [List.length_cons] at this
              omega
            rw [if_pos (same.mpr hp), if_pos hp, ih _ room, List.append_assoc]
          · rw [if_neg (fun h => hp (same.mp h)), if_neg hp, ih 0 (Nat.zero_le _), List.cons_append]

theorem replace_append_sep (nonempty : old ≠ []) (clean : sep ∉ old) (s t : Bytes) :
    replace old new (s ++ sep :: t) = replace old new s ++ sep :: replace old new t :=
  replaceFrom_append_sep nonempty clean 0 (Nat.zero_le _)

end Replace

/-! ## Image names -/

/-- An image name: the extension, and no other `jpg`. Names of files have no slash. -/
structure JpgName (name : Bytes) : Prop where
  extension : DOT :: JPG_TEXT <:+ name
  single : ¬ JPG_TEXT <:+: stem name
  slash : SLASH ∉ name

/-- A file of the image directory that the pattern `*.jpg` matches. -/
structure ImageFile (name : Bytes) : Prop where
  extension : DOT :: JPG_TEXT <:+ name
  slash : SLASH ∉ name

theorem ImageFile.eq {name : Bytes} (h : ImageFile name) :
    name = stem name ++ DOT :: JPG_TEXT := by
  obtain ⟨s, rfl⟩ := h.extension
  have reversed : (s ++ DOT :: JPG_TEXT).reverse = 103 :: 112 :: 106 :: DOT :: s.reverse := by
    simp
  have base : stem (s ++ DOT :: JPG_TEXT) = s := by
    rw [stem, reversed, List.dropWhile_cons_of_pos (by decide),
      List.dropWhile_cons_of_pos (by decide), List.dropWhile_cons_of_pos (by decide),
      List.dropWhile_cons_of_neg (by decide)]
    exact List.reverse_reverse s
  rw [base]

/-- The image exporter replaces in the stem, too. -/
theorem ImageFile.saved_name_eq {name : Bytes} (h : ImageFile name) :
    saved_name name = replace JPG_TEXT BIN_TEXT (stem name) ++ BIN := by
  have jpg : replace JPG_TEXT BIN_TEXT (IMAGE_DIRECTORY ++ SLASH :: name) =
      IMAGE_DIRECTORY ++ SLASH :: (replace JPG_TEXT BIN_TEXT (stem name) ++ BIN) := by
    have split : ∀ {sep : UInt8}, sep ∉ JPG_TEXT → ∀ s t : Bytes,
        replace JPG_TEXT BIN_TEXT (s ++ sep :: t) =
          replace JPG_TEXT BIN_TEXT s ++ sep :: replace JPG_TEXT BIN_TEXT t :=
      fun clean => replace_append_sep (by decide) clean
    rw [split (by decide), show replace JPG_TEXT BIN_TEXT IMAGE_DIRECTORY = IMAGE_DIRECTORY by
      decide]
    conv_lhs => rw [h.eq]
    rw [split (by decide), show replace JPG_TEXT BIN_TEXT JPG_TEXT = BIN_TEXT by decide]
  have noSlash : SLASH ∉ replace JPG_TEXT BIN_TEXT (stem name) ++ BIN := by
    rw [List.mem_append, not_or]
    refine ⟨fun hs => ?_, by decide⟩
    cases mem_of_mem_replaceFrom hs with
    | inl hs =>
        apply h.slash
        rw [h.eq]
        exact List.mem_append_left _ hs
    | inr hs => exact absurd hs (by decide)
  have rest : ¬ IMAGE_DIRECTORY ++ [SLASH] <:+: replace JPG_TEXT BIN_TEXT (stem name) ++ BIN :=
    fun hi => noSlash (hi.subset (by decide))
  rw [saved_name, new_name, jpg, List.append_cons IMAGE_DIRECTORY SLASH (_ ++ _),
    replace_append_of_ne_nil (by decide), replace_of_not_infix rest]
  rfl

theorem JpgName.imageFile {name : Bytes} (h : JpgName name) : ImageFile name :=
  ⟨h.extension, h.slash⟩

theorem JpgName.eq {name : Bytes} (h : JpgName name) : name = stem name ++ DOT :: JPG_TEXT :=
  h.imageFile.eq

/-- Both exporters use the same name for an image. -/
theorem saved_name_eq {name : Bytes} (h : JpgName name) : saved_name name = bin_name name := by
  rw [h.imageFile.saved_name_eq, replace_of_not_infix h.single, bin_name]

end PeopleDetection
