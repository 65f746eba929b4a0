import Mathlib.Data.List.Basic

/-!
# Words as sets of bits

A word is the set of the positions of its ones. `a &&& b = 0` says that two sets are
disjoint, and `a &&& ~~~b = 0` that the first is a subset of the second. Parallel
components that a mask selects finish one by one: what has finished and what still runs
then split the mask.
-/

namespace PeopleDetection.Library.BitSet

variable {n : Nat} {a b c m : BitVec n}

theorem disjoint_iff : a &&& b = 0 ↔ ∀ i, a.getLsbD i = true → b.getLsbD i = false := by
  constructor
  · intro h i hi
    have bit := congrArg (·.getLsbD i) h
    simpa [hi] using bit
  · intro h
    apply BitVec.eq_of_getLsbD_eq
    intro i _
    have bit := h i
    rw [BitVec.getLsbD_and]
    cases ha : a.getLsbD i <;> simp_all

theorem subset_iff : a &&& ~~~b = 0 ↔ ∀ i, a.getLsbD i = true → b.getLsbD i = true := by
  rw [disjoint_iff]
  refine forall_congr' fun i => ?_
  by_cases hi : i < n
  · simp [hi]
  · simp [BitVec.getLsbD_of_ge _ _ (Nat.le_of_not_lt hi)]

theorem eq_zero_of_subset (h : a &&& ~~~b = 0) (empty : b = 0) : a = 0 := by
  subst empty
  rw [subset_iff] at h
  apply BitVec.eq_of_getLsbD_eq
  intro i _
  simpa using h i

theorem subset_trans (h : a &&& ~~~b = 0) (h' : b &&& ~~~c = 0) : a &&& ~~~c = 0 := by
  rw [subset_iff] at h h' ⊢
  exact fun i hi => h' i (h i hi)

theorem inter_eq_of_subset (h : a &&& ~~~b = 0) : a &&& b = a := by
  rw [subset_iff] at h
  apply BitVec.eq_of_getLsbD_eq
  intro i _
  have bit := h i
  rw [BitVec.getLsbD_and]
  cases ha : a.getLsbD i <;> simp_all

/-- The first bit is the only one. -/
theorem eq_one_of_subset (h : a &&& ~~~1#n = 0) (some : a ≠ 0) : a = 1#n := by
  rw [subset_iff] at h
  have only (i : Nat) (hi : a.getLsbD i = true) : i = 0 := by
    have bit := h i hi
    rw [BitVec.getLsbD_one] at bit
    simp_all
  have first : a.getLsbD 0 = true := by
    by_contra no
    apply some
    apply BitVec.eq_of_getLsbD_eq
    intro i _
    cases bit : a.getLsbD i with
    | false => simp
    | true =>
        rw [only i bit] at bit
        exact absurd bit no
  apply BitVec.eq_of_getLsbD_eq
  intro i _
  cases bit : a.getLsbD i with
  | true => exact (h i bit).symm
  | false =>
      cases i with
      | zero =>
          rw [bit] at first
          cases first
      | succ i => simp

/-! ## What has finished and what runs

`a` has finished, `b` runs, and `c` finishes next. -/

theorem finish_whole (whole : a ||| b = m) (next : c &&& ~~~b = 0) :
    (a ||| c) ||| (b &&& ~~~c) = m := by
  subst whole
  rw [subset_iff] at next
  apply BitVec.eq_of_getLsbD_eq
  intro i hi
  have bit := next i
  simp only [BitVec.getLsbD_or, BitVec.getLsbD_and, BitVec.getLsbD_not, hi, decide_true,
    Bool.true_and]
  generalize a.getLsbD i = x, b.getLsbD i = y, c.getLsbD i = z at bit ⊢
  cases x <;> cases y <;> cases z <;> simp_all

theorem finish_disjoint (disjoint : a &&& b = 0) : (a ||| c) &&& (b &&& ~~~c) = 0 := by
  rw [disjoint_iff] at disjoint ⊢
  intro i
  have bit := disjoint i
  simp only [BitVec.getLsbD_or, BitVec.getLsbD_and, BitVec.getLsbD_not]
  generalize a.getLsbD i = x, b.getLsbD i = y, c.getLsbD i = z at bit ⊢
  cases x <;> cases y <;> cases z <;> simp_all

/-- All have finished when none runs. -/
theorem covers_iff (whole : a ||| b = m) (disjoint : a &&& b = 0) : a &&& m = m ↔ b = 0 := by
  subst whole
  rw [disjoint_iff] at disjoint
  constructor
  · intro h
    apply BitVec.eq_of_getLsbD_eq
    intro i _
    have bit := congrArg (·.getLsbD i) h
    have other := disjoint i
    simp only [BitVec.getLsbD_and, BitVec.getLsbD_or] at bit
    cases ha : a.getLsbD i <;> cases hb : b.getLsbD i <;> simp_all
  · rintro rfl
    simp

theorem subset_of_whole (whole : a ||| b = m) : a &&& ~~~m = 0 := by
  subst whole
  rw [subset_iff]
  intro i h
  simp [h]

/-! ## Loops over the bits -/

theorem test_bit (i : Nat) : (a >>> i) &&& 1#n ≠ 0 ↔ a.getLsbD i = true := by
  rw [Ne, disjoint_iff]
  constructor
  · intro h
    by_contra bit
    apply h
    intro j hj
    rw [BitVec.getLsbD_ushiftRight] at hj
    rw [BitVec.getLsbD_one]
    cases j with
    | zero => exact absurd hj bit
    | succ j => simp
  · intro h all
    have pos : 0 < n := Nat.pos_of_ne_zero fun zero => by
      subst zero
      simp [BitVec.getLsbD_of_ge] at h
    have first := all 0 (by simpa [BitVec.getLsbD_ushiftRight] using h)
    simp [pos] at first

/-- A loop that sets those of the listed bits that a word has. -/
theorem getLsbD_foldl_set (l : List Nat) (t : BitVec n) {j : Nat} (hj : j < n) :
    (l.foldl (fun t i => if (a >>> i) &&& 1#n ≠ 0 then t ||| (1#n <<< i) else t) t).getLsbD j =
      (t.getLsbD j || (decide (j ∈ l) && a.getLsbD j)) := by
  induction l generalizing t with
  | nil => simp
  | cons i l ih =>
      have bit : (a >>> i) &&& 1#n ≠ 0 ↔ a.getLsbD i = true := test_bit i
      rw [List.foldl_cons, ih]
      by_cases h : a.getLsbD i = true
      · rw [if_pos (bit.mpr h)]
        by_cases e : j = i
        · subst e
          simp [h, hj]
        · have shifted : (1#n <<< i).getLsbD j = false := by
            rw [BitVec.getLsbD_shiftLeft, BitVec.getLsbD_one]
            by_cases below : j < i
            · simp [below]
            · have above : j - i ≠ 0 := by omega
              simp [above]
          simp [e, shifted]
      · rw [if_neg (fun c => h (bit.mp c))]
        by_cases e : j = i
        · subst e
          simp [h]
        · simp [e]

end PeopleDetection.Library.BitSet
