import Mathlib.Algebra.BigOperators.Intervals
import Mathlib.Algebra.Group.Action.Basic
import Mathlib.Logic.Function.Iterate
import Mathlib.Tactic.Abel

/-!
# Edits of a list

A program edits a list at listed positions. A position may be listed more than once, and is
then edited more than once.

Two kinds of edits depend only on the last of their values. Slots to which a base is added
are moved to a new base by adding the difference to the old one. Settings overwrite a part
of an item: the last value of each setting counts, if different settings do not
interfere.
-/

namespace PeopleDetection.Library

section Edits

variable {α : Type*} (f : α → α)

/-- Edit a list at a position, if that lies inside. -/
def editAt (l : List α) (k : ℕ) : Option (List α) :=
  if k < l.length then some (l.modify k f) else none

/-- A list whose items were edited as often as their positions are listed. -/
def edited (ks : List ℕ) (l : List α) : List α := l.mapIdx fun j x => f^[ks.count j] x

variable {f} {ks : List ℕ} {l : List α}

@[simp] theorem length_edited : (edited f ks l).length = l.length := List.length_mapIdx

theorem getElem?_edited (j : ℕ) : (edited f ks l)[j]? = l[j]?.map (f^[ks.count j]) :=
  List.getElem?_mapIdx

theorem edited_modify (k : ℕ) : edited f ks (l.modify k f) = edited f (k :: ks) l := by
  apply List.ext_getElem?
  intro j
  rw [getElem?_edited, getElem?_edited, List.getElem?_modify, List.count_cons]
  cases l[j]? with
  | none => split <;> rfl
  | some x =>
      by_cases same : k = j
      · subst same
        simp
      · simp [same]

/-- Edits inside the list succeed. -/
theorem foldlM_editAt (inside : ∀ k ∈ ks, k < l.length) :
    ks.foldlM (editAt f) l = some (edited f ks l) := by
  induction ks generalizing l with
  | nil =>
      refine congrArg some (List.ext_getElem? fun j => ?_)
      rw [getElem?_edited]
      exact Option.map_id'.symm
  | cons k ks ih =>
      have here := inside k List.mem_cons_self
      have rest : ∀ i ∈ ks, i < (l.modify k f).length := fun i hi => by
        rw [List.length_modify]
        exact inside i (List.mem_cons_of_mem k hi)
      rw [List.foldlM_cons, editAt, if_pos here]
      exact (ih rest).trans (congrArg some (edited_modify k))

/-- An edit that may be repeated is made once. -/
theorem getElem?_edited_of_idempotent (again : ∀ x, f (f x) = f x) (j : ℕ) :
    (edited f ks l)[j]? = l[j]?.map fun x => if j ∈ ks then f x else x := by
  have more (n : ℕ) (x : α) : f^[n + 1] x = f x := by
    induction n generalizing x with
    | zero => rfl
    | succ n ih => rw [Function.iterate_succ_apply, ih, again]
  rw [getElem?_edited]
  congr 1
  funext x
  by_cases member : j ∈ ks
  · obtain ⟨n, hn⟩ := Nat.exists_eq_add_of_lt (List.count_pos_iff.mpr member)
    rw [if_pos member, hn, Nat.zero_add, more]
  · rw [if_neg member, List.count_eq_zero_of_not_mem member, Function.iterate_zero, id]

end Edits

/-! ## Bases -/

section Bases

variable {G : Type*} [AddCommGroup G]

/-- The sum of the bases that belong to a position. -/
def baseAt (slots : List (List ℕ)) (bases : ℕ → G) (j : ℕ) : G :=
  ∑ i ∈ Finset.range slots.length, (slots.getD i []).count j • bases i

/-- A list with bases added at their slots. -/
def relocated (slots : List (List ℕ)) (bases : ℕ → G) (l : List G) : List G :=
  l.mapIdx fun j x => x + baseAt slots bases j

variable {slots : List (List ℕ)} {bases : ℕ → G} {l : List G} {i : ℕ}

@[simp] theorem length_relocated : (relocated slots bases l).length = l.length :=
  List.length_mapIdx

theorem getElem?_relocated (j : ℕ) :
    (relocated slots bases l)[j]? = l[j]?.map (· + baseAt slots bases j) :=
  List.getElem?_mapIdx

theorem relocated_zero : relocated slots (0 : ℕ → G) l = l := by
  apply List.ext_getElem?
  intro j
  simp [getElem?_relocated, baseAt]

theorem baseAt_update_of_ge (outside : slots.length ≤ i) (b : G) (j : ℕ) :
    baseAt slots (Function.update bases i b) j = baseAt slots bases j := by
  apply Finset.sum_congr rfl
  intro k hk
  rw [Function.update_of_ne (by have := Finset.mem_range.mp hk; omega)]

theorem baseAt_update (inside : i < slots.length) (b : G) (j : ℕ) :
    baseAt slots (Function.update bases i b) j =
      baseAt slots bases j + (slots.getD i []).count j • (b - bases i) := by
  have member := Finset.mem_range.mpr inside
  have others : ∑ k ∈ (Finset.range slots.length).erase i,
      (slots.getD k []).count j • Function.update bases i b k =
      ∑ k ∈ (Finset.range slots.length).erase i, (slots.getD k []).count j • bases k :=
    Finset.sum_congr rfl fun k hk => by rw [Function.update_of_ne (Finset.ne_of_mem_erase hk)]
  rw [baseAt, baseAt, ← Finset.add_sum_erase _ _ member, ← Finset.add_sum_erase _ _ member,
    others, Function.update_self, nsmul_sub]
  abel

/-- Adding the difference moves the slots of one base. -/
theorem edited_relocated (inside : i < slots.length) (b : G) :
    edited (· + (b - bases i)) (slots.getD i []) (relocated slots bases l) =
      relocated slots (Function.update bases i b) l := by
  apply List.ext_getElem?
  intro j
  rw [getElem?_edited, getElem?_relocated, getElem?_relocated, Option.map_map]
  congr 1
  funext x
  rw [add_right_iterate, baseAt_update inside]
  exact add_assoc _ _ _

end Bases

/-! ## Settings -/

section Settings

variable {ι α β : Type*} [DecidableEq ι] {g : ι → β → α → α}

/-- Where the settings do not interfere, the last value of each one counts. -/
theorem foldl_update {i : ι} {a : β} (apart : ∀ k b x, i ≠ k → g i a (g k b x) = g k b (g i a x))
    (absorb : ∀ b x, g i a (g i b x) = g i a x) {is : List ι} (once : is.Nodup)
    (member : i ∈ is) (values : ι → β) (x : α) :
    g i a (is.foldl (fun x k => g k (values k) x) x) =
      is.foldl (fun x k => g k (Function.update values i a k) x) x := by
  have through {ks : List ι} (other : i ∉ ks) (x : α) :
      g i a (ks.foldl (fun x k => g k (values k) x) x) =
        ks.foldl (fun x k => g k (Function.update values i a k) x) (g i a x) := by
    induction ks generalizing x with
    | nil => rfl
    | cons k ks ih =>
        rw [List.mem_cons, not_or] at other
        rw [List.foldl_cons, List.foldl_cons, ih other.2, apart k _ _ other.1,
          Function.update_of_ne (Ne.symm other.1)]
  induction is generalizing x with
  | nil => cases member
  | cons k is ih =>
      rw [List.nodup_cons] at once
      rw [List.foldl_cons, List.foldl_cons]
      by_cases here : i = k
      · subst here
        rw [through once.1, absorb, Function.update_self]
      · rw [Function.update_of_ne (Ne.symm here)]
        exact ih once.2 ((List.mem_cons.mp member).resolve_left here) _

end Settings
end PeopleDetection.Library
