import Mathlib.Data.List.Range

/-!
# Counting loops

A loop over `0`, …, `n - 1` is a fold over a range. The rule follows a loop that advances
a position by a fixed amount and adds to a list in every turn; it applies to nested loops
from the inside out. A loop that writes rows of one length writes them in row-major order.
Where a turn may fail, a loop whose turns succeed computes the loop that cannot fail.
-/

namespace PeopleDetection.Library

variable {σ β : Type*}

/-- If turn `k` advances from `a + k * m` by `m` and appends `g k`, the loop advances by
`n * m` and appends all of them. -/
theorem foldl_range_collect {P : Nat → List β → σ → Prop} {f : σ → Nat → σ} {g : Nat → List β}
    {a m : Nat} (step : ∀ k l s, P (a + k * m) l s → P (a + k * m + m) (l ++ g k) (f s k))
    (n : Nat) {l : List β} {s : σ} (init : P a l s) :
    P (a + n * m) (l ++ (List.range n).flatMap g) ((List.range n).foldl f s) := by
  induction n with
  | zero => simpa using init
  | succ n ih =>
      rw [List.range_succ, List.foldl_append, List.flatMap_append, ← List.append_assoc,
        Nat.succ_mul, ← Nat.add_assoc]
      simpa using step n _ _ ih

/-! ## Rows of one length -/

section Rows

variable {f : Nat → List β} {n : Nat}

theorem length_flatMap_range (rows : ∀ r, (f r).length = n) (m : Nat) :
    ((List.range m).flatMap f).length = m * n := by
  induction m with
  | zero => simp
  | succ m ih =>
      rw [List.range_succ, List.flatMap_append, List.length_append, ih, List.flatMap_singleton,
        rows, Nat.succ_mul]

/-- Item `j` of row `r`. -/
theorem getElem?_flatMap_range (rows : ∀ r, (f r).length = n) {m r j : Nat} (hr : r < m)
    (hj : j < n) : ((List.range m).flatMap f)[r * n + j]? = (f r)[j]? := by
  induction m with
  | zero => exact absurd hr (Nat.not_lt_zero r)
  | succ m ih =>
      have before := length_flatMap_range rows m
      rw [List.range_succ, List.flatMap_append, List.flatMap_singleton]
      rcases Nat.lt_succ_iff_lt_or_eq.mp hr with h | rfl
      · have inside : r * n + j < m * n := by
          calc
            r * n + j < r * n + n := Nat.add_lt_add_left hj _
            _ = (r + 1) * n := (Nat.succ_mul r n).symm
            _ ≤ m * n := Nat.mul_le_mul_right n h
        rw [List.getElem?_append_left (before ▸ inside), ih h]
      · rw [List.getElem?_append_right (before ▸ Nat.le_add_right _ _), before,
          Nat.add_sub_cancel_left]

end Rows

/-! ## Turns that may fail -/

/-- A loop whose turns succeed in every state. -/
theorem foldlM_eq_some {f : σ → β → Option σ} {g : σ → β → σ} {xs : List β}
    (turn : ∀ x ∈ xs, ∀ s, f s x = some (g s x)) (s : σ) :
    xs.foldlM f s = some (xs.foldl g s) := by
  induction xs generalizing s with
  | nil => rfl
  | cons x xs ih =>
      rw [List.foldlM_cons, turn x List.mem_cons_self, List.foldl_cons]
      exact ih (fun y hy => turn y (List.mem_cons_of_mem x hy)) _

/-- What every turn that succeeds preserves, a loop that succeeds preserves. -/
theorem foldlM_inv {P : σ → Prop} {f : σ → β → Option σ} {xs : List β}
    (turn : ∀ x s s', P s → f s x = some s' → P s') {s s' : σ} (init : P s)
    (h : xs.foldlM f s = some s') : P s' := by
  induction xs generalizing s with
  | nil =>
      cases h
      exact init
  | cons x xs ih =>
      rw [List.foldlM_cons] at h
      obtain ⟨t, ht, rest⟩ := Option.bind_eq_some_iff.mp h
      exact ih (turn x s t init ht) rest

/-- A loop whose turns succeed where the invariant of the loop holds. Turn `k` advances from
`a + k * m` by `m`. -/
theorem foldlM_range_eq_some {P : Nat → σ → Prop} {f : σ → Nat → Option σ} {g : σ → Nat → σ}
    {a m n : Nat} (turn : ∀ k < n, ∀ s, P (a + k * m) s →
      f s k = some (g s k) ∧ P (a + k * m + m) (g s k)) {s : σ} (init : P a s) :
    (List.range n).foldlM f s = some ((List.range n).foldl g s) ∧
      P (a + n * m) ((List.range n).foldl g s) := by
  induction n with
  | zero => exact ⟨rfl, by simpa using init⟩
  | succ n ih =>
      obtain ⟨before, inv⟩ := ih fun k hk => turn k (Nat.lt_succ_of_lt hk)
      obtain ⟨last, next⟩ := turn n (Nat.lt_succ_self n) _ inv
      rw [List.range_succ, List.foldlM_append, before, List.foldl_append, Nat.succ_mul,
        ← Nat.add_assoc]
      refine ⟨?_, next⟩
      simp only [bind, Option.bind_some, List.foldlM_cons, List.foldlM_nil, List.foldl_cons,
        List.foldl_nil, last]
      rfl

theorem eq_some_of_getElem? {f : Nat → Option β} {l : List β} (h : ∀ i < l.length, f i = l[i]?)
    (i : Nat) (x : β) (hi : l[i]? = some x) : f i = some x := by
  rw [h i (List.getElem?_eq_some_iff.mp hi).1, hi]

/-- A loop that reads the items of a list. -/
theorem mapM_range_eq_some_iff {f : Nat → Option β} {l : List β} {n : Nat} :
    (List.range n).mapM f = some l ↔ l.length = n ∧ ∀ i < n, f i = l[i]? := by
  induction n generalizing l with
  | zero =>
      refine ⟨fun h => ?_, fun h => ?_⟩
      · cases h
        exact ⟨rfl, fun i hi => absurd hi (Nat.not_lt_zero i)⟩
      · rw [List.length_eq_zero_iff.mp h.1]
        rfl
  | succ n ih =>
      have split : (List.range (n + 1)).mapM f =
          ((List.range n).mapM f).bind fun xs => (f n).map fun x => xs ++ [x] := by
        rw [List.range_succ, List.mapM_append]
        cases (List.range n).mapM f with
        | none => rfl
        | some xs =>
            simp only [bind, Option.bind_some, List.mapM_cons, List.mapM_nil]
            cases f n <;> rfl
      rw [split, Option.bind_eq_some_iff]
      constructor
      · rintro ⟨xs, before, last⟩
        obtain ⟨x, here, rfl⟩ := Option.map_eq_some_iff.mp last
        obtain ⟨length, items⟩ := ih.mp before
        refine ⟨by rw [List.length_append, length]; rfl, fun i hi => ?_⟩
        rcases Nat.lt_succ_iff_lt_or_eq.mp hi with h | rfl
        · rw [List.getElem?_append_left (length ▸ h), items i h]
        · rw [here, List.getElem?_append_right (Nat.le_of_eq length), length, Nat.sub_self]
          rfl
      · rintro ⟨length, items⟩
        have last : n < l.length := length ▸ Nat.lt_succ_self n
        refine ⟨l.take n, ih.mpr ⟨?_, fun i hi => ?_⟩, Option.map_eq_some_iff.mpr ⟨l[n], ?_, ?_⟩⟩
        · rw [List.length_take]
          omega
        · rw [items i (Nat.lt_succ_of_lt hi), List.getElem?_take_of_lt hi]
        · rw [items n (Nat.lt_succ_self n), List.getElem?_eq_getElem last]
        · calc
            l.take n ++ [l[n]] = l.take (n + 1) := by
              rw [List.take_add_one, List.getElem?_eq_getElem last]
              rfl
            _ = l := List.take_of_length_le (Nat.le_of_eq length)

/-- A loop whose last turn fails in every state. -/
theorem foldlM_range_succ_eq_none {f : σ → Nat → Option σ} {n : Nat} (last : ∀ s, f s n = none)
    (s : σ) : (List.range (n + 1)).foldlM f s = none := by
  rw [List.range_succ, List.foldlM_append]
  cases (List.range n).foldlM f s with
  | none => rfl
  | some s =>
      simp only [bind, Option.bind_some, List.foldlM_cons, last]
      rfl

end PeopleDetection.Library
