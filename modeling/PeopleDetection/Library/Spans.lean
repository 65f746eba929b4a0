import Mathlib.Algebra.Order.Field.Basic
import Mathlib.Tactic.Linarith

/-!
# Spans and the overlap of rectangles

A span is an interval of an ordered field, given by its ends. The overlap of two spans is
negative when they are apart; their meet is a span whose extent is the positive part of the
overlap. A rectangle is a pair of spans, and the quotient of the intersection and the union
of two rectangles is below one, and at least one half exactly if three times the intersection
is at least the sum of the areas.
-/

namespace PeopleDetection.Library

variable {F : Type*}

/-- The interval from `lo` to `hi`. -/
@[ext] structure Span (F : Type*) where
  lo : F
  hi : F

namespace Span

section Order

variable [LinearOrder F] [Sub F]

def length (s : Span F) : F := s.hi - s.lo

def overlap (s t : Span F) : F := min s.hi t.hi - max s.lo t.lo

/-- What two spans have in common. -/
def meet (s t : Span F) : Span F := ⟨max s.lo t.lo, min s.hi t.hi⟩

/-- The open span. -/
def Inside (s : Span F) (x : F) : Prop := s.lo < x ∧ x < s.hi

/-- The length of a span whose ends may be in the wrong order. -/
def extent [Zero F] (s : Span F) : F := max 0 s.length

omit [Sub F] in
theorem inside_meet {s t : Span F} {x : F} :
    (s.meet t).Inside x ↔ s.Inside x ∧ t.Inside x := by
  simp only [meet, Inside, max_lt_iff, lt_min_iff]
  exact and_and_and_comm

theorem extent_nonneg [Zero F] (s : Span F) : 0 ≤ s.extent := le_max_left _ _

end Order

variable [Field F] [LinearOrder F] [IsStrictOrderedRing F] {s t : Span F}

omit [IsStrictOrderedRing F] in
theorem overlap_comm (s t : Span F) : s.overlap t = t.overlap s := by
  rw [overlap, overlap, min_comm, max_comm]

theorem overlap_le_left (s t : Span F) : s.overlap t ≤ s.length :=
  sub_le_sub (min_le_left _ _) (le_max_left _ _)

theorem extent_meet_le_left (s t : Span F) : (s.meet t).extent ≤ s.extent :=
  max_le_max_left 0 (overlap_le_left s t)

omit [IsStrictOrderedRing F] in
theorem extent_of_pos (h : 0 < s.length) : s.extent = s.length := max_eq_right h.le

omit [IsStrictOrderedRing F] in
theorem extent_of_nonpos (h : s.length ≤ 0) : s.extent = 0 := max_eq_left h

/-- A span has an extent when there is a point inside. -/
theorem extent_pos_iff : 0 < s.extent ↔ ∃ x, s.Inside x := by
  constructor
  · intro h
    have pos : 0 < s.length := by
      by_contra nonpos
      rw [extent_of_nonpos (not_lt.mp nonpos)] at h
      exact lt_irrefl 0 h
    obtain ⟨x, lo, hi⟩ := exists_between (sub_pos.mp pos)
    exact ⟨x, lo, hi⟩
  · rintro ⟨x, lo, hi⟩
    exact lt_max_of_lt_right (sub_pos.mpr (lo.trans hi))

end Span

section Quotient

variable [Field F] [LinearOrder F] [IsStrictOrderedRing F]

/-- The quotient of the intersection and the union is below one, with `e` added to the
union. -/
theorem quotient_mem {inter a b e : F} (pos : 0 < e) (nonneg : 0 ≤ inter) (le_a : inter ≤ a)
    (le_b : inter ≤ b) :
    0 < a + b - inter + e ∧ 0 ≤ inter / (a + b - inter + e) ∧ inter / (a + b - inter + e) < 1 ∧
      (0 < inter / (a + b - inter + e) ↔ 0 < inter) := by
  have union : 0 < a + b - inter + e := by linarith
  refine ⟨union, div_nonneg nonneg union.le, ?_, div_pos_iff_of_pos_right union⟩
  rw [div_lt_one union]
  linarith

/-- When the quotient is at least one half. -/
theorem half_le_quotient_iff {inter a b e : F} (nonneg : 0 ≤ e) (pos : 0 < inter)
    (le_a : inter ≤ a) (le_b : inter ≤ b) :
    1 / 2 ≤ inter / (a + b - inter + e) ↔ a + b + e ≤ 3 * inter := by
  have union : 0 < a + b - inter + e := by linarith
  rw [div_le_div_iff₀ two_pos union]
  constructor <;> intro h <;> linarith

end Quotient
end PeopleDetection.Library
