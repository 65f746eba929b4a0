import Mathlib.Algebra.Order.Field.Rat
import Mathlib.Tactic.FieldSimp
import Mathlib.Tactic.IntervalCases
import Mathlib.Tactic.NormNum
import Mathlib.Tactic.Ring
import PeopleDetection.GroundTruth.Reader

/-!
# Decimal numerals

The text of counts and coordinates in the annotation file, as Python writes it: `str`
of a natural number, and `'%.3f'` of a non-negative number. `Libc.ReadsDecimals` is
what the round trip needs of the C library's parsers, and `Libc.decimal` is a pair of
parsers that has it.
-/

namespace PeopleDetection

/-- `'.'`, `'-'` and `'+'`. -/
abbrev DOT : UInt8 := 46
abbrev MINUS : UInt8 := 45
abbrev PLUS : UInt8 := 43

/-- `'0'` … `'9'`. -/
def isDigit (b : UInt8) : Bool := 48 ≤ b && b ≤ 57

/-- The digit of a number below ten. -/
def digit (d : Nat) : UInt8 := UInt8.ofNat (48 + d)

/-- `str(n)`. -/
def numeral (n : Nat) : Bytes := (Nat.toDigits 10 n).map Char.toUInt8

/-- The text of `n / 1000` with three decimals. -/
def fixed3 (n : Nat) : Bytes :=
  numeral (n / 1000) ++
    [DOT, digit (n / 100 % 10), digit (n / 10 % 10), digit (n % 10)]

theorem isDigit_digit {d : Nat} (h : d < 10) : isDigit (digit d) = true := by
  interval_cases d <;> decide

theorem toNat_digit {d : Nat} (h : d < 10) : (digit d).toNat - 48 = d := by
  interval_cases d <;> decide

theorem toUInt8_digitChar {d : Nat} (h : d < 10) : d.digitChar.toUInt8 = digit d := by
  interval_cases d <;> decide

theorem numeral_of_lt {n : Nat} (h : n < 10) : numeral n = [digit n] := by
  rw [numeral, Nat.toDigits_of_lt_base h, List.map_singleton, toUInt8_digitChar h]

/-- The last digit of a longer numeral. -/
theorem numeral_of_le {n : Nat} (h : 10 ≤ n) :
    numeral n = numeral (n / 10) ++ [digit (n % 10)] := by
  rw [numeral, Nat.toDigits_of_base_le (by decide) h, List.map_append, List.map_singleton,
    toUInt8_digitChar (Nat.mod_lt _ (by decide))]
  rfl

theorem isDigit_of_mem_numeral {n : Nat} {b : UInt8} (h : b ∈ numeral n) :
    isDigit b = true := by
  induction n using Nat.strongRecOn with
  | ind n ih =>
      rcases Nat.lt_or_ge n 10 with small | large
      · rw [numeral_of_lt small, List.mem_singleton] at h
        exact h ▸ isDigit_digit small
      · rw [numeral_of_le large, List.mem_append, List.mem_singleton] at h
        rcases h with h | rfl
        · exact ih (n / 10) (by omega) h
        · exact isDigit_digit (Nat.mod_lt _ (by decide))

@[simp] theorem numeral_ne_nil (n : Nat) : numeral n ≠ [] := by
  simp [numeral]

theorem length_numeral_le {n k : Nat} (hk : 0 < k) (h : n < 10 ^ k) :
    (numeral n).length ≤ k := by
  rw [numeral, List.length_map]
  exact (Nat.length_toDigits_le_iff (by decide) hk).mpr h

/-- The bytes of a coordinate are digits and the decimal point. -/
theorem mem_fixed3 {n : Nat} {b : UInt8} (h : b ∈ fixed3 n) : isDigit b = true ∨ b = DOT := by
  rw [fixed3, List.mem_append] at h
  rcases h with h | h
  · exact Or.inl (isDigit_of_mem_numeral h)
  · simp only [List.mem_cons, List.not_mem_nil, or_false] at h
    rcases h with rfl | rfl | rfl | rfl
    · exact Or.inr rfl
    all_goals exact Or.inl (isDigit_digit (Nat.mod_lt _ (by decide)))

@[simp] theorem fixed3_ne_nil (n : Nat) : fixed3 n ≠ [] := by
  simp [fixed3]

/-- A coordinate below 1000 needs at most seven characters. -/
theorem length_fixed3_le {n : Nat} (h : n < 1000000) : (fixed3 n).length ≤ 7 := by
  have : (numeral (n / 1000)).length ≤ 3 := length_numeral_le (by decide) (by omega)
  simp only [fixed3, List.length_append, List.length_cons, List.length_nil]
  omega

/-- What the round trip assumes of `atoi` and `strtof`: a decimal numeral is read
exactly. -/
structure Libc.ReadsDecimals (lc : Libc ℚ) : Prop where
  atoi : ∀ n : Nat, lc.atoi (numeral n) = n
  strtof : ∀ n : Nat, lc.strtof (fixed3 n) = n / 1000

/-! ## Parsers for decimal text -/

/-- The number spelled by a list of digits, continuing from `v`. -/
def digitsValue (v : Nat) (s : Bytes) : Nat := s.foldl (fun v b => 10 * v + (b.toNat - 48)) v

/-- Read the longest run of digits, and return what follows. -/
def readDigits (s : Bytes) : Nat × Bytes :=
  (digitsValue 0 (s.takeWhile isDigit), s.dropWhile isDigit)

/-- Apply a parser behind an optional sign. -/
def signed {α : Type} [Neg α] (read : Bytes → α) : Bytes → α
  | [] => read []
  | b :: s => if b = MINUS then -read s else if b = PLUS then read s else read (b :: s)

/-- Parsers for `[+-]digits` and `[+-]digits[.digits]`. -/
def Libc.decimal : Libc ℚ where
  atoi := signed fun s => ((readDigits s).1 : Int)
  strtof := signed fun s =>
    match readDigits s with
    | (whole, rest) =>
        match rest with
        | [] => (whole : ℚ)
        | b :: frac =>
            if b = DOT then
              whole + (readDigits frac).1 / 10 ^ (frac.takeWhile isDigit).length
            else whole

theorem digitsValue_numeral (n : Nat) : digitsValue 0 (numeral n) = n := by
  induction n using Nat.strongRecOn with
  | ind n ih =>
      rcases Nat.lt_or_ge n 10 with small | large
      · simp [numeral_of_lt small, digitsValue, toNat_digit small]
      · have last : n % 10 < 10 := Nat.mod_lt _ (by decide)
        have head := ih (n / 10) (by omega)
        rw [digitsValue] at head
        rw [numeral_of_le large, digitsValue, List.foldl_append, head, List.foldl_cons,
          List.foldl_nil, toNat_digit last]
        omega

theorem readDigits_append (ds rest : Bytes) (digits : ∀ b ∈ ds, isDigit b = true)
    (stop : ∀ b ∈ rest.head?, isDigit b = false) :
    readDigits (ds ++ rest) = (digitsValue 0 ds, rest) := by
  have tw : (ds ++ rest).takeWhile isDigit = ds := by
    rw [List.takeWhile_append_of_pos digits]
    cases rest with
    | nil => simp
    | cons b rest => rw [List.takeWhile_cons_of_neg (by rw [stop b rfl]; decide), List.append_nil]
  have dw : (ds ++ rest).dropWhile isDigit = rest := by
    rw [List.dropWhile_append_of_pos digits]
    cases rest with
    | nil => rfl
    | cons b rest => rw [List.dropWhile_cons_of_neg (by rw [stop b rfl]; decide)]
  rw [readDigits, tw, dw]

theorem signed_of_digit {α : Type} [Neg α] (read : Bytes → α) {b : UInt8} {s : Bytes}
    (h : isDigit b = true) : signed read (b :: s) = read (b :: s) := by
  have hm : b ≠ MINUS := by rintro rfl; exact absurd h (by decide)
  have hp : b ≠ PLUS := by rintro rfl; exact absurd h (by decide)
  simp [signed, hm, hp]

/-- The plain parsers have the assumed property. -/
theorem Libc.decimal_readsDecimals : Libc.decimal.ReadsDecimals where
  atoi n := by
    obtain ⟨b, s, hs⟩ := List.exists_cons_of_ne_nil (numeral_ne_nil n)
    have hb : isDigit b = true := isDigit_of_mem_numeral (n := n) (by simp [hs])
    have read := readDigits_append (numeral n) []
      (fun b => isDigit_of_mem_numeral) (by simp)
    rw [List.append_nil] at read
    simp only [Libc.decimal]
    rw [hs, signed_of_digit _ hb, ← hs, read, digitsValue_numeral]
  strtof n := by
    obtain ⟨b, s, hs⟩ := List.exists_cons_of_ne_nil (numeral_ne_nil (n / 1000))
    have hb : isDigit b = true := isDigit_of_mem_numeral (n := n / 1000) (by simp [hs])
    have whole := readDigits_append (numeral (n / 1000))
      [DOT, digit (n / 100 % 10), digit (n / 10 % 10), digit (n % 10)]
      (fun b => isDigit_of_mem_numeral) (by rintro b ⟨⟩; decide)
    have hd : ∀ m, isDigit (digit (m % 10)) = true :=
      fun m => isDigit_digit (Nat.mod_lt _ (by decide))
    have digits : ∀ b ∈ [digit (n / 100 % 10), digit (n / 10 % 10), digit (n % 10)],
        isDigit b = true := by
      simp [hd]
    have frac := readDigits_append _ [] digits (by simp)
    have size : ([digit (n / 100 % 10), digit (n / 10 % 10), digit (n % 10)].takeWhile
        isDigit).length = 3 := by
      rw [List.takeWhile_eq_self_iff.mpr digits]
      rfl
    have value : digitsValue 0 [digit (n / 100 % 10), digit (n / 10 % 10), digit (n % 10)] =
        n % 1000 := by
      have v : ∀ m, (digit (m % 10)).toNat - 48 = m % 10 :=
        fun m => toNat_digit (Nat.mod_lt _ (by decide))
      simp only [digitsValue, List.foldl_cons, List.foldl_nil, v]
      omega
    rw [List.append_nil] at frac
    simp only [Libc.decimal, fixed3]
    rw [hs, List.cons_append, signed_of_digit _ hb, ← List.cons_append, ← hs, whole]
    simp only [if_pos, frac, size, value, digitsValue_numeral]
    have split : (n : ℚ) = (1000 * (n / 1000) + n % 1000 : ℕ) := by
      rw [Nat.div_add_mod]
    rw [split]
    push_cast
    field_simp
    ring

end PeopleDetection
