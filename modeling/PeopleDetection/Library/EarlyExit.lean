import Mathlib.Data.List.Basic
import Mathlib.Data.List.Infix

/-!
# Loops that may be left early

`Flow.run` executes a loop body once per item until the items are exhausted or the
body leaves the loop. A body that returns `next` reaches the following loop head; a
body that returns `stop` models `break` and `return`, with the reason attached.

The loop heads of a run over `xs` are exactly the states reached over a prefix of
`xs`. The induction rules below are therefore stated over the items consumed so far,
which also lets an invariant speak about the history of the loop.
-/

namespace PeopleDetection.Library

universe u v w

/-- What one turn of a loop does: go on to the next item, or leave the loop. -/
inductive Flow (σ : Type u) (ε : Type v) where
  | next (state : σ)
  | stop (reason : ε) (state : σ)

namespace Flow

variable {σ : Type u} {ε : Type v} {α : Type w} {step : σ → α → Flow σ ε}
variable {s t : σ} {e : ε} {x : α} {xs ys : List α}

/-- The state in which a turn, or a whole loop, leaves the program. -/
def state : Flow σ ε → σ
  | .next s => s
  | .stop _ s => s

/-- Execute the body for every item in order, until it leaves the loop. -/
def run (step : σ → α → Flow σ ε) : σ → List α → Flow σ ε
  | s, [] => .next s
  | s, x :: xs =>
      match step s x with
      | .next t => run step t xs
      | .stop e t => .stop e t

@[simp] theorem state_next (s : σ) : (next s : Flow σ ε).state = s := rfl
@[simp] theorem state_stop (e : ε) (s : σ) : (stop e s).state = s := rfl

@[simp] theorem run_nil : run step s [] = .next s := rfl

theorem run_cons_of_next (h : step s x = .next t) : run step s (x :: xs) = run step t xs := by
  simp only [run, h]

theorem run_cons_of_stop (h : step s x = .stop e t) : run step s (x :: xs) = .stop e t := by
  simp only [run, h]

/-- A run over a concatenation continues from the loop head between the two parts. -/
theorem run_append_of_next (h : run step s xs = .next t) :
    run step s (xs ++ ys) = run step t ys := by
  induction xs generalizing s with
  | nil =>
      cases h
      rfl
  | cons x xs ih =>
      rw [List.cons_append]
      cases hx : step s x with
      | next u =>
          rw [run_cons_of_next hx] at h ⊢
          exact ih h
      | stop e u =>
          rw [run_cons_of_stop hx] at h
          cases h

/-- A loop that was left ignores the items that follow. -/
theorem run_append_of_stop (h : run step s xs = .stop e t) :
    run step s (xs ++ ys) = .stop e t := by
  induction xs generalizing s with
  | nil => cases h
  | cons x xs ih =>
      rw [List.cons_append]
      cases hx : step s x with
      | next u =>
          rw [run_cons_of_next hx] at h ⊢
          exact ih h
      | stop e' u =>
          rw [run_cons_of_stop hx] at h ⊢
          exact h

/-- A loop that reaches the head after `xs ++ ys` has passed the head after `xs`. -/
theorem run_append_eq_next (h : run step s (xs ++ ys) = .next t) :
    ∃ u, run step s xs = .next u ∧ run step u ys = .next t := by
  cases hx : run step s xs with
  | next u => exact ⟨u, rfl, by rw [← run_append_of_next hx, h]⟩
  | stop e u =>
      rw [run_append_of_stop hx] at h
      cases h

/-- The last turn before a loop head started at the previous loop head. -/
theorem run_concat_eq_next (h : run step s (xs ++ [x]) = .next t) :
    ∃ u, run step s xs = .next u ∧ step u x = .next t := by
  obtain ⟨u, hu, hx⟩ := run_append_eq_next h
  refine ⟨u, hu, ?_⟩
  cases hs : step u x with
  | next v =>
      rw [run_cons_of_next hs] at hx
      exact hx
  | stop e v =>
      rw [run_cons_of_stop hs] at hx
      cases hx

/-- A loop that was left was left by one turn, entered at a loop head. -/
theorem run_eq_stop (h : run step s xs = .stop e t) :
    ∃ front x back u, xs = front ++ x :: back ∧ run step s front = .next u ∧
      step u x = .stop e t := by
  induction xs generalizing s with
  | nil => cases h
  | cons x xs ih =>
      cases hx : step s x with
      | next u =>
          rw [run_cons_of_next hx] at h
          obtain ⟨front, y, back, v, rfl, hv, hy⟩ := ih h
          exact ⟨x :: front, y, back, v, rfl, by rw [run_cons_of_next hx, hv], hy⟩
      | stop e' u =>
          rw [run_cons_of_stop hx] at h
          cases h
          exact ⟨[], x, xs, s, rfl, rfl, hx⟩

/-- The invariant rule. `P` may mention the items consumed so far; it holds at every
loop head of the run, hence at its normal end. -/
theorem run_inv {P : List α → σ → Prop} (start : P [] s)
    (preserved : ∀ front x u v, P front u → step u x = .next v → P (front ++ [x]) v) :
    ∀ {front t}, run step s front = .next t → P front t := by
  intro front
  induction front using List.reverseRecOn with
  | nil =>
      intro t h
      cases h
      exact start
  | append_singleton front x ih =>
      intro t h
      obtain ⟨u, hu, hx⟩ := run_concat_eq_next h
      exact preserved front x u t (ih hu) hx

/-- If no turn leaves the loop, every prefix of the items reaches its loop head. -/
theorem run_ne_stop {R : α → Prop} (items : ∀ x ∈ xs, R x)
    (goes : ∀ s x, R x → ∃ t, step s x = .next t) : ∃ t, run step s xs = .next t := by
  induction xs generalizing s with
  | nil => exact ⟨s, rfl⟩
  | cons x xs ih =>
      obtain ⟨u, hu⟩ := goes s x (items x (by simp))
      rw [run_cons_of_next hu]
      exact ih fun y hy => items y (List.mem_cons_of_mem _ hy)

/-! ## Two loops over the same items -/

section Related

universe u' v'

variable {τ : Type u'} {ε' : Type v'}

/-- Two turns go on to states in `R`, or both leave their loops, with the outcomes in `S`. -/
inductive Related (R : σ → τ → Prop) (S : ε → σ → ε' → τ → Prop) : Flow σ ε → Flow τ ε' → Prop
  | next {s : σ} {t : τ} : R s t → Related R S (.next s) (.next t)
  | stop {e : ε} {s : σ} {e' : ε'} {t : τ} : S e s e' t → Related R S (.stop e s) (.stop e' t)

/-- The simulation rule. The relation of the loop heads may mention the items consumed so
far. -/
theorem run_related {R : List α → σ → τ → Prop} {S : ε → σ → ε' → τ → Prop}
    {f : σ → α → Flow σ ε} {g : τ → α → Flow τ ε'} (xs : List α)
    (turns : ∀ front x s t, x ∈ xs → R front s t → Related (R (front ++ [x])) S (f s x) (g t x))
    {s : σ} {t : τ} (start : R [] s t) : Related (R xs) S (run f s xs) (run g t xs) := by
  have loop : ∀ back front s t, (∀ x ∈ back, x ∈ xs) → R front s t →
      Related (R (front ++ back)) S (run f s back) (run g t back) := by
    intro back
    induction back with
    | nil =>
        intro front s t _ h
        rw [List.append_nil]
        exact .next h
    | cons x back ih =>
        intro front s t items h
        have turn := turns front x s t (items x List.mem_cons_self) h
        generalize hf : f s x = a at turn
        generalize hg : g t x = b at turn
        cases turn with
        | next h =>
            rw [run_cons_of_next hf, run_cons_of_next hg, List.append_cons]
            exact ih _ _ _ (fun y hy => items y (List.mem_cons_of_mem x hy)) h
        | stop h =>
            rw [run_cons_of_stop hf, run_cons_of_stop hg]
            exact .stop h
  exact loop xs [] s t (fun _ hx => hx) start

end Related

end Flow
end PeopleDetection.Library
