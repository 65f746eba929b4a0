import Mathlib.Data.List.Basic

/-!
# Interleaved runs

A program is a list of operations. Before each of them, and at the end, the environment
may disturb the state any number of times, as far as it is allowed to. What an invariant
needs is that neither an operation nor a disturbance breaks it.
-/

namespace PeopleDetection.Library

variable {O E S : Type*} (exec : O → S → S) (disturb : E → S → S) (allowed : S → E → Prop)

/-- The runs of a list of operations. -/
inductive Run : List O → S → S → Prop where
  | done (s : S) : Run [] s s
  | disturbed {ops : List O} {s s' : S} {e : E} (ok : allowed s e)
      (rest : Run ops (disturb e s) s') : Run ops s s'
  | step {op : O} {ops : List O} {s s' : S} (rest : Run ops (exec op s) s') :
      Run (op :: ops) s s'

namespace Run

variable {exec disturb allowed} {P : S → Prop} {s s' : S}

/-- Without disturbances, a run is a fold. -/
theorem undisturbed (ops : List O) (s : S) :
    Run exec disturb allowed ops s (ops.foldl (fun s op => exec op s) s) := by
  induction ops generalizing s with
  | nil => exact .done s
  | cons op ops ih => exact .step (ih _)

theorem append {ops ops' : List O} {s'' : S} (first : Run exec disturb allowed ops s s')
    (second : Run exec disturb allowed ops' s' s'') :
    Run exec disturb allowed (ops ++ ops') s s'' := by
  induction first with
  | done _ => exact second
  | disturbed ok _ ih => exact .disturbed ok (ih second)
  | step _ ih => exact .step (ih second)

/-- A run may be disturbed at its end. -/
theorem append_disturbed {ops : List O} {e : E} (run : Run exec disturb allowed ops s s')
    (ok : allowed s' e) : Run exec disturb allowed ops s (disturb e s') := by
  simpa using run.append (.disturbed ok (.done _))

/-- A run disturbs the state, and then takes its first step. -/
theorem uncons {op : O} {ops : List O} (run : Run exec disturb allowed (op :: ops) s s') :
    ∃ m, Run exec disturb allowed [] s m ∧ Run exec disturb allowed ops (exec op m) s' := by
  generalize all : op :: ops = program at run
  induction run with
  | done _ => cases all
  | disturbed ok _ ih =>
      obtain ⟨m, first, rest⟩ := ih all
      exact ⟨m, .disturbed ok first, rest⟩
  | step rest _ =>
      cases all
      exact ⟨_, .done _, rest⟩

/-- A run of two programs in a row passes a state between them. -/
theorem split {ops ops' : List O} {s'' : S}
    (run : Run exec disturb allowed (ops ++ ops') s s'') :
    ∃ s', Run exec disturb allowed ops s s' ∧ Run exec disturb allowed ops' s' s'' := by
  induction ops generalizing s with
  | nil => exact ⟨s, .done s, run⟩
  | cons op ops ih =>
      obtain ⟨m, before, rest⟩ := uncons run
      obtain ⟨s', first, second⟩ := ih rest
      exact ⟨s', before.append (.step first), second⟩

/-- What every operation and every disturbance preserves, a run preserves. -/
theorem preserves {ops : List O} (run : Run exec disturb allowed ops s s')
    (steady : ∀ s e, allowed s e → P s → P (disturb e s))
    (keep : ∀ op ∈ ops, ∀ s, P s → P (exec op s)) (init : P s) : P s' := by
  induction run with
  | done _ => exact init
  | disturbed ok _ ih => exact ih keep (steady _ _ ok init)
  | step _ ih =>
      exact ih (fun op hop => keep op (List.mem_cons_of_mem _ hop))
        (keep _ List.mem_cons_self _ init)

/-- What one operation establishes in the states of an invariant `J`, and every later
operation and every disturbance preserves, holds at the end. -/
theorem establishes {J : S → Prop} {ops : List O} (run : Run exec disturb allowed ops s s') {op : O}
    (member : op ∈ ops) (init : J s) (steadyJ : ∀ s e, allowed s e → J s → J (disturb e s))
    (keepJ : ∀ op' ∈ ops, ∀ s, J s → J (exec op' s)) (goal : ∀ s, J s → P (exec op s))
    (steady : ∀ s e, allowed s e → P s → P (disturb e s))
    (keep : ∀ op' ∈ ops, ∀ s, P s → P (exec op' s)) : P s' := by
  induction run with
  | done _ => cases member
  | disturbed ok _ ih => exact ih member (steadyJ _ _ ok init) keepJ keep
  | step rest ih =>
      have later {Q : S → Prop} {op' : O} {ops : List O}
          (h : ∀ op'' ∈ op' :: ops, ∀ s, Q s → Q (exec op'' s)) :
          ∀ op'' ∈ ops, ∀ s, Q s → Q (exec op'' s) :=
        fun op'' hop => h op'' (List.mem_cons_of_mem _ hop)
      cases member with
      | head => exact rest.preserves steady (later keep) (goal _ init)
      | tail _ h => exact ih h (keepJ _ List.mem_cons_self _ init) (later keepJ) (later keep)

end Run
end PeopleDetection.Library
