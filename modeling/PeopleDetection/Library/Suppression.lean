import Mathlib.Data.List.Basic

/-!
# Greedy suppression

Of a list of items, the greedy rule keeps each one that no earlier kept item suppresses.
Programs run the rule in place: they mark an item as dead instead of removing it, and let
every item that is still alive kill what it suppresses behind it. `sweep` is that program,
`cut` marks everything beyond the first few. Both agree with the rule on the items that
are alive.
-/

namespace PeopleDetection.Library

variable {α : Type*} (suppresses : α → α → Prop) [DecidableRel suppresses]

/-! ## The rule -/

/-- The items kept out of a list, when some were kept before it. -/
def keepFrom : List α → List α → List α
  | _, [] => []
  | kept, x :: xs =>
      if ∃ k ∈ kept, suppresses k x then keepFrom kept xs
      else x :: keepFrom (kept ++ [x]) xs

/-- Keep an item if no earlier kept item suppresses it. -/
def greedy (xs : List α) : List α := keepFrom suppresses [] xs

/-- What was kept before may as well be applied beforehand. -/
theorem keepFrom_append (before kept xs : List α) :
    keepFrom suppresses (before ++ kept) xs =
      keepFrom suppresses kept (xs.filter fun x => ∀ k ∈ before, ¬ suppresses k x) := by
  induction xs generalizing kept with
  | nil => rfl
  | cons x xs ih =>
      by_cases early : ∃ k ∈ before, suppresses k x
      · have either : ∃ k ∈ before ++ kept, suppresses k x := by
          obtain ⟨k, hk, hx⟩ := early
          exact ⟨k, List.mem_append_left _ hk, hx⟩
        rw [keepFrom, if_pos either, ih, List.filter_cons_of_neg (by simpa using early)]
      · have same : (∃ k ∈ before ++ kept, suppresses k x) ↔ ∃ k ∈ kept, suppresses k x := by
          constructor
          · rintro ⟨k, hk, hx⟩
            cases List.mem_append.mp hk with
            | inl h => exact absurd ⟨k, h, hx⟩ early
            | inr h => exact ⟨k, h, hx⟩
          · rintro ⟨k, hk, hx⟩
            exact ⟨k, List.mem_append_right _ hk, hx⟩
        rw [List.filter_cons_of_pos (by simpa using early), keepFrom, keepFrom,
          List.append_assoc, ih, ih]
        simp only [same]

@[simp] theorem greedy_nil : greedy suppresses [] = [] := rfl

/-- The first item is kept, and suppresses among the others. -/
theorem greedy_cons (x : α) (xs : List α) :
    greedy suppresses (x :: xs) =
      x :: greedy suppresses (xs.filter fun y => ¬ suppresses x y) := by
  have first := keepFrom_append suppresses [x] [] xs
  simp only [List.mem_singleton, forall_eq] at first
  rw [greedy, keepFrom, if_neg (by simp), List.nil_append]
  exact congrArg (x :: ·) first

/-! ## What is kept -/

/-- Induction along the rule: from what the first item spares to the whole list. -/
theorem greedy_induction {motive : List α → Prop} (nil : motive [])
    (cons : ∀ x xs, motive (xs.filter fun y => ¬ suppresses x y) → motive (x :: xs))
    (xs : List α) : motive xs := by
  obtain ⟨n, hn⟩ : ∃ n, xs.length ≤ n := ⟨_, Nat.le_refl _⟩
  induction n generalizing xs with
  | zero =>
      rw [List.length_eq_zero_iff.mp (Nat.le_zero.mp hn)]
      exact nil
  | succ n ih =>
      cases xs with
      | nil => exact nil
      | cons x xs =>
          have shorter := List.length_filter_le (fun y => decide (¬ suppresses x y)) xs
          rw [List.length_cons] at hn
          exact cons x xs (ih _ (by omega))

/-- The kept items come in the order of the list. -/
theorem greedy_sublist (xs : List α) : (greedy suppresses xs).Sublist xs := by
  induction xs using greedy_induction suppresses with
  | nil => exact List.Sublist.refl []
  | cons x xs ih =>
      rw [greedy_cons]
      exact (ih.trans List.filter_sublist).cons_cons x

/-- No kept item suppresses a later one. -/
theorem pairwise_greedy (xs : List α) :
    (greedy suppresses xs).Pairwise fun a b => ¬ suppresses a b := by
  induction xs using greedy_induction suppresses with
  | nil => exact List.Pairwise.nil
  | cons x xs ih =>
      rw [greedy_cons, List.pairwise_cons]
      refine ⟨fun y hy => ?_, ih⟩
      have spared := (greedy_sublist suppresses _).subset hy
      simpa using (List.mem_filter.mp spared).2

/-- An item that is not kept is suppressed by a kept one that stands before it. -/
theorem exists_suppresses {xs : List α} {r : α → α → Prop} (ordered : xs.Pairwise r) {y : α}
    (member : y ∈ xs) (dropped : y ∉ greedy suppresses xs) :
    ∃ k ∈ greedy suppresses xs, suppresses k y ∧ r k y := by
  induction xs using greedy_induction suppresses with
  | nil => cases member
  | cons x xs ih =>
      rw [greedy_cons, List.mem_cons, not_or] at dropped
      rw [greedy_cons]
      have later : y ∈ xs := (List.mem_cons.mp member).resolve_left dropped.1
      rw [List.pairwise_cons] at ordered
      by_cases hit : suppresses x y
      · exact ⟨x, List.mem_cons_self, hit, ordered.1 y later⟩
      · obtain ⟨k, hk, covered⟩ := ih (ordered.2.filter _)
          (List.mem_filter.mpr ⟨later, by simpa using hit⟩) dropped.2
        exact ⟨k, List.mem_cons_of_mem _ hk, covered⟩

/-- Where nothing is suppressed, everything is kept. -/
theorem greedy_eq_self {xs : List α} (free : xs.Pairwise fun a b => ¬ suppresses a b) :
    greedy suppresses xs = xs := by
  induction xs with
  | nil => rfl
  | cons x xs ih =>
      rw [List.pairwise_cons] at free
      rw [greedy_cons, List.filter_eq_self.mpr fun y hy => by simpa using free.1 y hy, ih free.2]

/-! ## Marks -/

variable (alive : α → Prop) [DecidablePred alive] (kill : α → α)

/-- Kill what an item suppresses. -/
def strike (a b : α) : α := if alive b ∧ suppresses a b then kill b else b

/-- What an item leaves of those behind it. -/
def strikeAll (a : α) (rest : List α) : List α :=
  if alive a then rest.map (strike suppresses alive kill a) else rest

@[simp] theorem length_strikeAll (a : α) (rest : List α) :
    (strikeAll suppresses alive kill a rest).length = rest.length := by
  rw [strikeAll]
  split
  · rw [List.length_map]
  · rfl

/-- Let every item that is alive kill what it suppresses behind it. -/
def sweep : List α → List α
  | [] => []
  | a :: rest => a :: sweep (strikeAll suppresses alive kill a rest)
termination_by items => items.length
decreasing_by
  rw [length_strikeAll]
  exact Nat.lt_succ_self _

/-- Keep the first `room` items that are alive, and kill the others. -/
def cut : Nat → List α → List α
  | _, [] => []
  | room, a :: rest =>
      if 0 < room ∧ alive a then a :: cut (room - 1) rest else kill a :: cut room rest

variable {kill}

/-- Marking removes exactly what is suppressed from the items that are alive. -/
theorem filter_map_strike (dead : ∀ a, ¬ alive (kill a)) (a : α) (items : List α) :
    (items.map (strike suppresses alive kill a)).filter alive =
      (items.filter alive).filter fun b => ¬ suppresses a b := by
  induction items with
  | nil => rfl
  | cons b items ih =>
      rw [List.map_cons]
      by_cases hb : alive b
      · by_cases hs : suppresses a b
        · rw [strike, if_pos ⟨hb, hs⟩, List.filter_cons_of_neg (by simpa using dead b), ih,
            List.filter_cons_of_pos (by simpa using hb),
            List.filter_cons_of_neg (by simpa using hs)]
        · rw [strike, if_neg fun h => hs h.2, List.filter_cons_of_pos (by simpa using hb), ih,
            List.filter_cons_of_pos (by simpa using hb),
            List.filter_cons_of_pos (by simpa using hs)]
      · rw [strike, if_neg fun h => hb h.1, List.filter_cons_of_neg (by simpa using hb), ih,
          List.filter_cons_of_neg (by simpa using hb)]

/-- The items alive after a sweep are the greedy choice among those alive before. -/
theorem filter_sweep (dead : ∀ a, ¬ alive (kill a)) (items : List α) :
    (sweep suppresses alive kill items).filter alive =
      greedy suppresses (items.filter alive) := by
  induction items using sweep.induct suppresses alive kill with
  | case1 => simp [sweep]
  | case2 a rest ih =>
      rw [sweep]
      by_cases ha : alive a
      · rw [strikeAll, if_pos ha] at ih ⊢
        rw [List.filter_cons_of_pos (by simpa using ha), ih,
          List.filter_cons_of_pos (by simpa using ha), greedy_cons,
          filter_map_strike suppresses alive dead]
      · rw [strikeAll, if_neg ha] at ih ⊢
        rw [List.filter_cons_of_neg (by simpa using ha), ih,
          List.filter_cons_of_neg (by simpa using ha)]

omit [DecidableRel suppresses] in
/-- A cut leaves the first items alive. -/
theorem filter_cut (dead : ∀ a, ¬ alive (kill a)) (room : Nat) (items : List α) :
    (cut alive kill room items).filter alive = (items.filter alive).take room := by
  induction items generalizing room with
  | nil => simp [cut]
  | cons a rest ih =>
      rw [cut]
      by_cases ha : alive a
      · cases room with
        | zero =>
            rw [if_neg (by simp), List.filter_cons_of_neg (by simpa using dead a), ih,
              List.take_zero, List.take_zero]
        | succ room =>
            rw [if_pos ⟨room.succ_pos, ha⟩, List.filter_cons_of_pos (by simpa using ha), ih,
              List.filter_cons_of_pos (by simpa using ha), List.take_succ_cons, Nat.add_sub_cancel]
      · rw [if_neg fun h => ha h.2, List.filter_cons_of_neg (by simpa using dead a), ih,
          List.filter_cons_of_neg (by simpa using ha)]

end PeopleDetection.Library
