import PeopleDetection.Library.Pieces

/-!
# Bytes and C strings

The functions of the firmware and of the C library that read and trim text. A string
is the list of its bytes before the terminating NUL; `cstring` extracts it from a
buffer. `rstrip` and `lskip` are the helpers of `utils.c`, `strtok_r` is the C
library's tokenizer with its saved position made explicit.
-/

namespace PeopleDetection

open Library

abbrev Bytes := List UInt8

/-- The bytes the programs compare with. -/
abbrev NUL : UInt8 := 0
abbrev TAB : UInt8 := 9
abbrev LF : UInt8 := 10
abbrev CR : UInt8 := 13
abbrev SPACE : UInt8 := 32
abbrev COMMA : UInt8 := 44
abbrev SLASH : UInt8 := 47

/-- What `lskip` skips. -/
def isBlank (b : UInt8) : Bool := b == SPACE || b == TAB

/-- What `rstrip` removes. -/
def isTrailing (b : UInt8) : Bool := b == CR || b == LF || b == SPACE || b == TAB

/-- The string a C function sees in a buffer. -/
def cstring (buffer : Bytes) : Bytes := buffer.takeWhile (· ≠ NUL)

/-- `while (n && trailing(s[n - 1])) s[--n] = 0`. -/
def rstrip (s : Bytes) : Bytes := s.rdropWhile isTrailing

/-- `while (**ps == ' ' || **ps == '\t') (*ps)++`. -/
def lskip (s : Bytes) : Bytes := s.dropWhile isBlank

/-- The C library's tokenizer: skip delimiters, return the bytes before the next one,
and save the position behind it. Nothing is left to save behind the last token. -/
def strtok_r (delim : UInt8) (s : Bytes) : Option (Bytes × Bytes) :=
  match s.dropWhile (· = delim) with
  | [] => none
  | b :: rest =>
      some ((b :: rest).takeWhile (· ≠ delim), ((b :: rest).dropWhile (· ≠ delim)).drop 1)

theorem cstring_eq_self {s : Bytes} (h : NUL ∉ s) : cstring s = s := by
  rw [cstring, List.takeWhile_eq_self_iff]
  intro b hb
  simpa using fun hz : b = NUL => h (hz ▸ hb)

theorem rstrip_isPrefix (s : Bytes) : rstrip s <+: s := List.rdropWhile_prefix _ _

/-- A string that does not end in a removable byte is left alone. -/
theorem rstrip_eq_self {s : Bytes} (h : ∀ b ∈ s.getLast?, isTrailing b = false) :
    rstrip s = s := by
  rw [rstrip, List.rdropWhile_eq_self_iff]
  intro hs
  rw [h _ (List.getLast?_eq_some_getLast hs)]
  decide

theorem lskip_eq_self {s : Bytes} (h : ∀ b ∈ s.head?, isBlank b = false) : lskip s = s := by
  cases s with
  | nil => rfl
  | cons b s =>
      exact List.dropWhile_cons_of_neg (by rw [h b rfl]; decide)

/-- The tokenizer fails exactly on strings without fields. -/
theorem fields_of_strtok_r_none {delim : UInt8} {s : Bytes} (h : strtok_r delim s = none) :
    fields delim s = [] := by
  rw [← fields_dropWhile_sep]
  simp only [strtok_r] at h
  split at h
  · next hs => rw [hs, fields_nil]
  · cases h

/-- A token is the next field, and the saved position holds the remaining fields. -/
theorem fields_of_strtok_r_some {delim : UInt8} {s tok save : Bytes}
    (h : strtok_r delim s = some (tok, save)) :
    fields delim s = tok :: fields delim save := by
  rw [← fields_dropWhile_sep]
  simp only [strtok_r] at h
  split at h
  · cases h
  · next b rest hs =>
      have first : b ≠ delim := by
        have := List.head?_dropWhile_not (· = delim) s
        rw [hs] at this
        simpa using this
      obtain ⟨rfl, rfl⟩ := Prod.mk.inj (Option.some.inj h)
      rw [hs]
      have clean : delim ∉ (b :: rest).takeWhile (· ≠ delim) := by
        intro hm
        simpa using List.mem_takeWhile_imp hm
      have nonempty : (b :: rest).takeWhile (· ≠ delim) ≠ [] := by
        rw [List.takeWhile_cons_of_pos (by simpa using first)]
        exact List.cons_ne_nil _ _
      have parts := List.takeWhile_append_dropWhile (p := (· ≠ delim)) (l := b :: rest)
      cases hd : (b :: rest).dropWhile (· ≠ delim) with
      | nil =>
          rw [hd, List.append_nil] at parts
          rw [List.drop_nil, fields_nil, parts]
          exact fields_eq_singleton (parts ▸ clean) (List.cons_ne_nil _ _)
      | cons c tail =>
          have sep : c = delim := by
            have := List.head?_dropWhile_not (· ≠ delim) (b :: rest)
            rw [hd] at this
            simpa using this
          subst sep
          rw [hd] at parts
          conv_lhs => rw [← parts]
          rw [fields_append_cons_sep clean nonempty]
          rfl

end PeopleDetection
