import Mathlib.Algebra.BigOperators.Group.List.Basic
import Mathlib.Algebra.Order.Ring.Nat

/-!
# Systems that take labelled steps

A run of a system carries the labels of its steps. It is compared with a specification, a
partial function that takes one step at a time. For each step of the system the
specification takes a number of steps, often none.

The comparison keeps accounts as well. A step of the system has a price, which is paid
from a credit; some steps yield credit, and so does each step of the specification. Hence
a run cannot take many steps with a price while the specification stands still.
-/

namespace PeopleDetection.Library

universe u v w

/-! ## Specifications -/

section Specification

variable {A : Type w} {f : A → Option A} {a b c : A} {j k n : ℕ}

/-- The state after a number of steps. -/
def after (f : A → Option A) : ℕ → A → Option A
  | 0, a => some a
  | k + 1, a => (f a).bind (after f k)

@[simp] theorem after_zero (a : A) : after f 0 a = some a := rfl

theorem after_one (a : A) : after f 1 a = f a := by
  change (f a).bind (after f 0) = f a
  cases f a <;> rfl

theorem after_add (j k : ℕ) (a : A) : after f (j + k) a = (after f j a).bind (after f k) := by
  induction j generalizing a with
  | zero => simp
  | succ j ih =>
      rw [Nat.succ_add, after, after, Option.bind_assoc]
      congr 1
      funext b
      exact ih b

theorem after_trans (first : after f j a = some b) (second : after f k b = some c) :
    after f (j + k) a = some c := by
  rw [after_add, first]
  exact second

/-- A state that a run passes lies before its end. -/
theorem after_split (whole : after f n a = some c) (stop : f c = none)
    (part : after f k a = some b) : k ≤ n ∧ after f (n - k) b = some c := by
  obtain ⟨m, rfl⟩ | ⟨m, rfl⟩ := Nat.le_total k n |>.imp Nat.exists_eq_add_of_le
    Nat.exists_eq_add_of_le
  · rw [after_add, part] at whole
    exact ⟨by omega, by rw [Nat.add_sub_cancel_left]; exact whole⟩
  · rw [after_add, whole] at part
    cases m with
    | zero =>
        cases part
        exact ⟨Nat.le_refl _, by simp⟩
    | succ m =>
        rw [Option.bind_some, after, stop] at part
        cases part

/-- A run has one end. -/
theorem after_unique (whole : after f n a = some c) (stop : f c = none)
    (other : after f k a = some b) (stop' : f b = none) : b = c := by
  obtain ⟨_, rest⟩ := after_split whole stop other
  cases hm : n - k with
  | zero =>
      rw [hm] at rest
      exact Option.some.inj rest
  | succ m =>
      rw [hm, after, stop'] at rest
      cases rest

/-- Before its end, a run has a next state. -/
theorem after_next (whole : after f n a = some c) (more : a ≠ c) :
    ∃ m b, n = m + 1 ∧ f a = some b ∧ after f m b = some c := by
  cases n with
  | zero => exact absurd (Option.some.inj whole) more
  | succ m =>
      obtain ⟨b, ab, bc⟩ := Option.bind_eq_some_iff.mp whole
      exact ⟨m, b, rfl, ab, bc⟩

end Specification

/-! ## Runs -/

/-- The runs of a system, with the labels of their steps in the order taken. -/
inductive LabelledRun {S : Type u} {L : Type v} (step : S → L → S → Prop) :
    S → List L → S → Prop where
  | done (s : S) : LabelledRun step s [] s
  | step {s s' s'' : S} {l : L} {ls : List L} (turn : step s l s')
      (rest : LabelledRun step s' ls s'') : LabelledRun step s (l :: ls) s''

namespace LabelledRun

variable {S : Type u} {L : Type v} {A : Type w} {step : S → L → S → Prop}
variable {s s' s'' : S} {ls ls' : List L}

theorem append (first : LabelledRun step s ls s') (second : LabelledRun step s' ls' s'') :
    LabelledRun step s (ls ++ ls') s'' := by
  induction first with
  | done _ => exact second
  | step turn _ ih => exact .step turn (ih second)

/-- The simulation rule with accounts. `R a s c` relates a state of the specification and
one of the system, which has a credit of `c`. -/
theorem simulated {f : A → Option A} {price yield : L → ℕ} {rate : ℕ} {R : A → S → ℕ → Prop}
    (turns : ∀ a s c l s', R a s c → step s l s' →
      ∃ k a' c', after f k a = some a' ∧ R a' s' c' ∧ price l + c' ≤ c + yield l + rate * k)
    (run : LabelledRun step s ls s') {a : A} {c : ℕ} (start : R a s c) :
    ∃ k a' c', after f k a = some a' ∧ R a' s' c' ∧
      (ls.map price).sum + c' ≤ c + (ls.map yield).sum + rate * k := by
  induction run generalizing a c with
  | done _ => exact ⟨0, a, c, rfl, start, by simp⟩
  | step turn _ ih =>
      obtain ⟨j, b, d, ab, hb, first⟩ := turns a _ c _ _ start turn
      obtain ⟨k, e, d', be, he, rest⟩ := ih hb
      refine ⟨j + k, e, d', after_trans ab be, he, ?_⟩
      rw [Nat.mul_add]
      simp only [List.map_cons, List.sum_cons]
      omega

end LabelledRun
end PeopleDetection.Library
