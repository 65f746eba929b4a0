import Mathlib.Algebra.Order.Floor.Ring
import Mathlib.Data.Int.Init
import Mathlib.Data.Rat.Floor

/-!
# Numbers of the C programs

`CFloat` collects the operations of C's `float` without any law. What the benchmark
counts does not depend on the arithmetic, and is proved for every instance; rational
numbers are the exact instance. A `float` is converted to `int` by truncation, and the
target saturates what does not fit. `i32` is the value of a 32-bit `int` operation.
`FloatArith` is rational arithmetic with a rounding function behind every operation.
-/

namespace PeopleDetection

/-- The value of an `int` operation with the exact result `n`. -/
@[irreducible] def i32 (n : Int) : Int := Int.bmod n (2 ^ 32)

abbrev INT_MAX : Int := 2 ^ 31 - 1
abbrev INT_MIN : Int := -2 ^ 31

theorem i32_eq_self {n : Int} (lo : INT_MIN ≤ n) (hi : n ≤ INT_MAX) : i32 n = n := by
  simp only [INT_MIN, INT_MAX] at lo hi
  rw [i32, Int.bmod_eq_of_le] <;> omega

theorem i32_mem (n : Int) : INT_MIN ≤ i32 n ∧ i32 n ≤ INT_MAX := by
  have lo := Int.le_bmod (x := n) (m := 2 ^ 32) (by decide)
  have hi := Int.bmod_lt (x := n) (m := 2 ^ 32) (by decide)
  simp only [i32, INT_MIN, INT_MAX]
  omega

/-- The operations of C's `float`. -/
class CFloat (F : Type) [Zero F] extends Add F, Sub F, Neg F, Mul F, Div F, LE F, LT F where
  [decidableLE : DecidableLE F]
  [decidableLT : DecidableLT F]
  ofInt : Int → F
  toInt : F → Int

instance CFloat.instDecidableLE {F : Type} [Zero F] [CFloat F] : DecidableLE F := CFloat.decidableLE
instance CFloat.instDecidableLT {F : Type} [Zero F] [CFloat F] : DecidableLT F := CFloat.decidableLT

/-- `(int)x` on the target. -/
def saturate {F : Type} [Field F] [LinearOrder F] [FloorRing F] (x : F) : Int :=
  max INT_MIN (min INT_MAX (if 0 ≤ x then ⌊x⌋ else ⌈x⌉))

instance : CFloat ℚ where
  ofInt n := n
  toInt := saturate

/-- Rounding of arithmetic results: monotone, and exact on the small integers. -/
structure FloatArith where
  round : ℚ → ℚ
  mono : Monotone round
  exact_of_le : ∀ n : ℕ, n ≤ 256 → round n = n

/-- Exact arithmetic. -/
def FloatArith.exact : FloatArith := ⟨id, monotone_id, fun _ _ => rfl⟩

section Macros

variable {F : Type} [Zero F] [CFloat F]

/-- `(((a) > (b)) ? (a) : (b))`. -/
def MAX (a b : F) : F := if b < a then a else b

/-- `(((a) < (b)) ? (a) : (b))`. -/
def MIN (a b : F) : F := if a < b then a else b

end Macros
end PeopleDetection
