import Mathlib.Logic.Function.Basic

/-!
# A write-back cache

Memory behind a cache of lines. The processor accesses memory through the cache, other
devices access it directly. At any time a dirty line may be written back to memory, and a
clean line may be dropped.

At an address, `Holds` says that the processor reads a value there whatever was evicted
before, and `Stored` that memory has the value and keeps it whatever is evicted. A value is
`Shared` if the processor reads it and memory has it; then it is until it is overwritten.
-/

namespace PeopleDetection.Library

inductive LineStatus where
  | absent
  | clean
  | dirty
  deriving DecidableEq

/-- Memory, the contents of the lines in the cache, and the status of every line. -/
structure Cached (A L V : Type*) where
  mem : A → V
  data : A → V
  status : L → LineStatus

/-- What the cache may do on its own. -/
inductive Eviction (L : Type*) where
  | writeBack (l : L)
  | drop (l : L)

namespace Cached

variable {A L V : Type*} [DecidableEq L] (lineOf : A → L)

/-! ## Operations -/

/-- What the processor reads. -/
def view (s : Cached A L V) (a : A) : V :=
  if s.status (lineOf a) = .absent then s.mem a else s.data a

/-- Bring a line into the cache. -/
def fetch (s : Cached A L V) (l : L) : Cached A L V :=
  if s.status l = .absent then
    { s with
      data := fun a => if lineOf a = l then s.mem a else s.data a
      status := Function.update s.status l .clean }
  else s

def store [DecidableEq A] (s : Cached A L V) (a : A) (v : V) : Cached A L V :=
  { mem := s.mem
    data := Function.update (s.fetch lineOf (lineOf a)).data a v
    status := Function.update s.status (lineOf a) .dirty }

def cleanLine (s : Cached A L V) (l : L) : Cached A L V :=
  if s.status l = .dirty then
    { s with
      mem := fun a => if lineOf a = l then s.data a else s.mem a
      status := Function.update s.status l .clean }
  else s

def invalidateLine (s : Cached A L V) (l : L) : Cached A L V :=
  { s with status := Function.update s.status l .absent }

/-- A store that bypasses the cache. -/
def directStore [DecidableEq A] (s : Cached A L V) (a : A) (v : V) : Cached A L V :=
  { s with mem := Function.update s.mem a v }

def evict : Eviction L → Cached A L V → Cached A L V
  | .writeBack l, s => s.cleanLine lineOf l
  | .drop l, s => if s.status l = .clean then s.invalidateLine l else s

section Status

variable (s : Cached A L V) (l l' : L)

theorem status_fetch : (s.fetch lineOf l).status l' =
    if l' = l ∧ s.status l = .absent then .clean else s.status l' := by
  rw [fetch]
  by_cases absent : s.status l = .absent
  · rw [if_pos absent]
    simp only [Function.update_apply, absent, and_true]
  · rw [if_neg absent, if_neg fun h => absent h.2]

theorem status_store [DecidableEq A] (a : A) (v : V) : (s.store lineOf a v).status l' =
    if l' = lineOf a then .dirty else s.status l' := by
  simp only [store, Function.update_apply]

theorem status_cleanLine : (s.cleanLine lineOf l).status l' =
    if l' = l ∧ s.status l = .dirty then .clean else s.status l' := by
  rw [cleanLine]
  by_cases dirty : s.status l = .dirty
  · rw [if_pos dirty]
    simp only [Function.update_apply, dirty, and_true]
  · rw [if_neg dirty, if_neg fun h => dirty h.2]

theorem status_invalidateLine : (s.invalidateLine l).status l' =
    if l' = l then .absent else s.status l' := by
  simp only [invalidateLine, Function.update_apply]

/-- A store fetches its own line only. -/
theorem data_store_of_ne [DecidableEq A] {a b : A} (other : lineOf b ≠ lineOf a) (v : V) :
    (s.store lineOf a v).data b = s.data b := by
  have ne : b ≠ a := fun h => other (congrArg lineOf h)
  simp only [store, Function.update_of_ne ne]
  rw [fetch]
  split
  · exact if_neg other
  · rfl

theorem data_cleanLine : (s.cleanLine lineOf l).data = s.data := by
  rw [cleanLine]
  split <;> rfl

end Status

/-! ## What the processor reads -/

/-- The processor reads `v` at `a`, now and after any evictions. -/
def Holds (s : Cached A L V) (a : A) (v : V) : Prop :=
  match s.status (lineOf a) with
  | .absent => s.mem a = v
  | .clean => s.data a = v ∧ s.mem a = v
  | .dirty => s.data a = v

section Holds

variable {lineOf} {s : Cached A L V} {a : A} {v : V}

omit [DecidableEq L] in
theorem holds_of_absent (h : s.status (lineOf a) = .absent) (value : s.mem a = v) :
    s.Holds lineOf a v := by
  rwa [Holds, h]

omit [DecidableEq L] in
theorem Holds.view_eq (h : s.Holds lineOf a v) : s.view lineOf a = v := by
  rw [Holds] at h
  rw [view]
  cases hs : s.status (lineOf a) with
  | absent => rw [hs] at h; rwa [if_pos rfl]
  | clean => rw [hs] at h; rw [if_neg (by decide)]; exact h.1
  | dirty => rw [hs] at h; rwa [if_neg (by decide)]

omit [DecidableEq L] in
/-- `Holds` at an address depends on its line and on the values there. -/
theorem Holds.congr {t : Cached A L V} (h : s.Holds lineOf a v)
    (status : t.status (lineOf a) = s.status (lineOf a)) (data : t.data a = s.data a)
    (mem : t.mem a = s.mem a) : t.Holds lineOf a v := by
  rw [Holds, status, data, mem]
  exact h

theorem Holds.fetch (h : s.Holds lineOf a v) (l : L) : (s.fetch lineOf l).Holds lineOf a v := by
  rw [Cached.fetch]
  by_cases absent : s.status l = .absent
  · rw [if_pos absent]
    by_cases hl : lineOf a = l
    · subst hl
      rw [Holds, absent] at h
      rw [Holds]
      simp only [Function.update_self, if_true]
      exact ⟨h, h⟩
    · exact h.congr (Function.update_of_ne hl _ _) (if_neg hl) rfl
  · rwa [if_neg absent]

theorem Holds.cleanLine (h : s.Holds lineOf a v) (l : L) :
    (s.cleanLine lineOf l).Holds lineOf a v := by
  rw [Cached.cleanLine]
  by_cases dirty : s.status l = .dirty
  · rw [if_pos dirty]
    by_cases hl : lineOf a = l
    · subst hl
      rw [Holds, dirty] at h
      rw [Holds]
      simp only [Function.update_self, if_true]
      exact ⟨h, h⟩
    · exact h.congr (Function.update_of_ne hl _ _) rfl (if_neg hl)
  · rwa [if_neg dirty]

theorem Holds.evict (h : s.Holds lineOf a v) (e : Eviction L) :
    (s.evict lineOf e).Holds lineOf a v := by
  cases e with
  | writeBack l => exact h.cleanLine l
  | drop l =>
      rw [Cached.evict]
      by_cases clean : s.status l = .clean
      · rw [if_pos clean]
        by_cases hl : lineOf a = l
        · subst hl
          rw [Holds, clean] at h
          exact holds_of_absent (Function.update_self _ _ _) h.2
        · exact h.congr (Function.update_of_ne hl _ _) rfl rfl
      · rwa [if_neg clean]

theorem Holds.invalidateLine (h : s.Holds lineOf a v) {l : L} (other : lineOf a ≠ l) :
    (s.invalidateLine l).Holds lineOf a v :=
  h.congr (Function.update_of_ne other _ _) rfl rfl

theorem holds_store_self [DecidableEq A] (s : Cached A L V) (a : A) (v : V) :
    (s.store lineOf a v).Holds lineOf a v := by
  rw [Holds, Cached.store]
  simp only [Function.update_self]

theorem Holds.store_of_ne [DecidableEq A] (h : s.Holds lineOf a v) {b : A} (other : a ≠ b) (w : V) :
    (s.store lineOf b w).Holds lineOf a v := by
  have fetched := h.fetch (lineOf b)
  by_cases hl : lineOf a = lineOf b
  · -- the line is in the cache now, and becomes dirty
    have data : (s.fetch lineOf (lineOf b)).data a = v := by
      rw [← hl] at fetched ⊢
      rw [← fetched.view_eq, view, if_neg]
      rw [status_fetch]
      split
      · decide
      · next present => exact fun h => present ⟨rfl, h⟩
    rw [Holds, Cached.store]
    simp only [hl, Function.update_self, Function.update_of_ne other]
    exact data
  · exact h.congr (Function.update_of_ne hl _ _) (data_store_of_ne lineOf s hl w) rfl

end Holds

/-! ## What memory keeps -/

/-- Memory has `v` at `a`, and no write-back changes it. -/
structure Stored (s : Cached A L V) (a : A) (v : V) : Prop where
  mem : s.mem a = v
  settled : s.status (lineOf a) ≠ .dirty

section Stored

variable {lineOf} {s : Cached A L V} {a : A} {v : V}

theorem not_dirty_fetch {l : L} (h : s.status l ≠ .dirty) (l' : L) :
    (s.fetch lineOf l').status l ≠ .dirty := by
  rw [status_fetch]
  split
  · decide
  · exact h

theorem not_dirty_cleanLine {l : L} (h : s.status l ≠ .dirty) (l' : L) :
    (s.cleanLine lineOf l').status l ≠ .dirty := by
  rw [status_cleanLine]
  split
  · decide
  · exact h

theorem not_dirty_cleanLine_self (s : Cached A L V) (l : L) :
    (s.cleanLine lineOf l).status l ≠ .dirty := by
  rw [status_cleanLine]
  split
  · decide
  · next settled => exact fun dirty => settled ⟨rfl, dirty⟩

theorem not_dirty_invalidateLine {l : L} (h : s.status l ≠ .dirty) (l' : L) :
    (s.invalidateLine l').status l ≠ .dirty := by
  rw [status_invalidateLine]
  split
  · decide
  · exact h

theorem absent_invalidateLine {l : L} (h : s.status l = .absent) (l' : L) :
    (s.invalidateLine l').status l = .absent := by
  rw [status_invalidateLine]
  split
  · rfl
  · exact h

/-- No eviction makes a line dirty. -/
theorem not_dirty_evict {l : L} (h : s.status l ≠ .dirty) (e : Eviction L) :
    (s.evict lineOf e).status l ≠ .dirty := by
  cases e with
  | writeBack l' => exact not_dirty_cleanLine h l'
  | drop l' =>
      rw [Cached.evict]
      split
      · exact not_dirty_invalidateLine h l'
      · exact h

/-- No eviction brings a line into the cache. -/
theorem absent_evict {l : L} (h : s.status l = .absent) (e : Eviction L) :
    (s.evict lineOf e).status l = .absent := by
  cases e with
  | writeBack l' =>
      rw [Cached.evict, status_cleanLine, if_neg]
      · exact h
      · rintro ⟨rfl, dirty⟩
        rw [h] at dirty
        cases dirty
  | drop l' =>
      rw [Cached.evict]
      split
      · exact absent_invalidateLine h l'
      · exact h

/-- An eviction changes memory only on the dirty line that it writes back. -/
theorem mem_evict (e : Eviction L)
    (spared : ∀ l, e = .writeBack l → s.status l = .dirty → lineOf a ≠ l) :
    (s.evict lineOf e).mem a = s.mem a := by
  cases e with
  | writeBack l =>
      rw [Cached.evict, Cached.cleanLine]
      split
      · next dirty => exact if_neg (spared l rfl dirty)
      · rfl
  | drop l =>
      rw [Cached.evict]
      split <;> rfl

theorem Stored.invalidateLine (h : s.Stored lineOf a v) (l : L) :
    (s.invalidateLine l).Stored lineOf a v :=
  ⟨h.mem, not_dirty_invalidateLine h.settled l⟩

theorem Stored.evict (h : s.Stored lineOf a v) (e : Eviction L) :
    (s.evict lineOf e).Stored lineOf a v where
  mem := by
    rw [mem_evict e]
    · exact h.mem
    · intro l _ dirty hl
      rw [← hl] at dirty
      exact h.settled dirty
  settled := not_dirty_evict h.settled e

omit [DecidableEq L] in
/-- What the processor reads on a line that is not dirty is stored. -/
theorem Holds.stored (h : s.Holds lineOf a v) (settled : s.status (lineOf a) ≠ .dirty) :
    s.Stored lineOf a v where
  mem := by
    rw [Holds] at h
    cases hs : s.status (lineOf a) with
    | absent => rwa [hs] at h
    | clean => rw [hs] at h; exact h.2
    | dirty => exact absurd hs settled
  settled := settled

end Stored

/-! ## What the processor shares with other devices -/

/-- The processor reads `v` at `a`, and other devices find it in memory. -/
structure Shared (s : Cached A L V) (a : A) (v : V) : Prop where
  holds : s.Holds lineOf a v
  mem : s.mem a = v

section Shared

variable {lineOf} {s : Cached A L V} {a : A} {v : V}

/-- Cleaning its line shares what the processor reads. -/
theorem Holds.shared_cleanLine (h : s.Holds lineOf a v) :
    (s.cleanLine lineOf (lineOf a)).Shared lineOf a v where
  holds := h.cleanLine _
  mem := ((h.cleanLine _).stored (not_dirty_cleanLine_self s _)).mem

theorem Shared.fetch (h : s.Shared lineOf a v) (l : L) : (s.fetch lineOf l).Shared lineOf a v where
  holds := h.holds.fetch l
  mem := by
    rw [Cached.fetch]
    split <;> exact h.mem

theorem Shared.cleanLine (h : s.Shared lineOf a v) (l : L) :
    (s.cleanLine lineOf l).Shared lineOf a v where
  holds := h.holds.cleanLine l
  mem := by
    by_cases same : lineOf a = l
    · subst same
      exact h.holds.shared_cleanLine.mem
    · rw [Cached.cleanLine]
      split
      · exact (if_neg same).trans h.mem
      · exact h.mem

theorem Shared.invalidateLine (h : s.Shared lineOf a v) (l : L) :
    (s.invalidateLine l).Shared lineOf a v where
  holds := by
    by_cases same : lineOf a = l
    · refine holds_of_absent ?_ h.mem
      rw [status_invalidateLine, if_pos same]
    · exact h.holds.invalidateLine same
  mem := h.mem

theorem Shared.evict (h : s.Shared lineOf a v) (e : Eviction L) :
    (s.evict lineOf e).Shared lineOf a v := by
  cases e with
  | writeBack l => exact h.cleanLine l
  | drop l =>
      rw [Cached.evict]
      split
      · exact h.invalidateLine l
      · exact h

theorem Shared.store_of_ne [DecidableEq A] (h : s.Shared lineOf a v) {b : A} (other : a ≠ b)
    (w : V) : (s.store lineOf b w).Shared lineOf a v :=
  ⟨h.holds.store_of_ne other w, h.mem⟩

omit [DecidableEq L] in
theorem Shared.directStore_of_ne [DecidableEq A] (h : s.Shared lineOf a v) {b : A} (other : a ≠ b)
    (w : V) : (s.directStore b w).Shared lineOf a v where
  holds := h.holds.congr rfl rfl (Function.update_of_ne other _ _)
  mem := (Function.update_of_ne other _ _).trans h.mem

end Shared
end Cached
end PeopleDetection.Library
