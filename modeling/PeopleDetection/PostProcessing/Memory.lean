import Mathlib.Data.List.Basic
import PeopleDetection.Boxes

/-!
# Records in memory

The post-processing works inside the tensor that it decodes, so its memory is a single
array of words. A word was last written as a `float` or as an `int32_t`; reading it as
the other type is left to the `Runtime`. A record is six words.
-/

namespace PeopleDetection

variable {F : Type}

/-- A word of memory, with the type of the last store. -/
inductive Cell (F : Type) where
  | float (x : F)
  | int (n : Int)

/-- Memory, addressed by words. -/
def Memory (F : Type) : Type := Nat → Cell F

/-- What the post-processing takes from the C library and the number formats. -/
structure Runtime (F : Type) where
  expf : F → F
  logf : F → F
  qsort : (OdPpOutBuffer F → OdPpOutBuffer F → Int) →
    List (OdPpOutBuffer F) → List (OdPpOutBuffer F)
  floatOfBits : Int → F
  bitsOfFloat : F → Int

/-- `sizeof(od_pp_outBuffer_t)` in words, and the fields of a record. -/
abbrev RECORD : Nat := 6
abbrev CONF : Nat := 4
abbrev CLASS_INDEX : Nat := 5

namespace Memory

def store (mem : Memory F) (addr : Nat) (c : Cell F) : Memory F :=
  fun other => if other = addr then c else mem other

theorem store_apply (mem : Memory F) (addr other : Nat) (c : Cell F) :
    mem.store addr c other = if other = addr then c else mem other := rfl

/-- The record at an address, field by field. -/
def storeRecord (mem : Memory F) (addr : Nat) (r : OdPpOutBuffer F) : Memory F :=
  ((((((mem.store addr (.float r.x_center)).store (addr + 1) (.float r.y_center)).store
    (addr + 2) (.float r.width)).store (addr + 3) (.float r.height)).store
    (addr + CONF) (.float r.conf)).store (addr + CLASS_INDEX) (.int r.class_index))

def storeRecords : Memory F → Nat → List (OdPpOutBuffer F) → Memory F
  | mem, _, [] => mem
  | mem, addr, r :: rs => (mem.storeRecord addr r).storeRecords (addr + RECORD) rs

theorem storeRecord_of_lt (mem : Memory F) {addr other : Nat} (r : OdPpOutBuffer F)
    (h : other < addr ∨ addr + RECORD ≤ other) : mem.storeRecord addr r other = mem other := by
  simp only [RECORD] at h
  simp only [storeRecord, store_apply, CONF, CLASS_INDEX]
  repeat rw [if_neg (by omega)]

end Memory

namespace Runtime

variable (rt : Runtime F)

def loadFloat (mem : Memory F) (addr : Nat) : F :=
  match mem addr with
  | .float x => x
  | .int n => rt.floatOfBits n

def loadInt (mem : Memory F) (addr : Nat) : Int :=
  match mem addr with
  | .float x => rt.bitsOfFloat x
  | .int n => n

def loadRecord (mem : Memory F) (addr : Nat) : OdPpOutBuffer F where
  x_center := rt.loadFloat mem addr
  y_center := rt.loadFloat mem (addr + 1)
  width := rt.loadFloat mem (addr + 2)
  height := rt.loadFloat mem (addr + 3)
  conf := rt.loadFloat mem (addr + CONF)
  class_index := rt.loadInt mem (addr + CLASS_INDEX)

/-- The records `i`, …, `i + n - 1` of an array. -/
def loadRecords (mem : Memory F) (base i n : Nat) : List (OdPpOutBuffer F) :=
  (List.range' i n).map fun j => rt.loadRecord mem (base + RECORD * j)

@[simp] theorem loadRecords_zero (mem : Memory F) (base i : Nat) :
    rt.loadRecords mem base i 0 = [] := rfl

theorem loadRecords_succ (mem : Memory F) (base i n : Nat) :
    rt.loadRecords mem base i (n + 1) =
      rt.loadRecord mem (base + RECORD * i) :: rt.loadRecords mem base (i + 1) n := by
  rw [loadRecords, List.range'_succ, List.map_cons, loadRecords]

theorem loadRecords_concat (mem : Memory F) (base i n : Nat) :
    rt.loadRecords mem base i (n + 1) =
      rt.loadRecords mem base i n ++ [rt.loadRecord mem (base + RECORD * (i + n))] := by
  rw [loadRecords, List.range'_concat, List.map_append, List.map_singleton, Nat.one_mul,
    loadRecords]

@[simp] theorem length_loadRecords (mem : Memory F) (base i n : Nat) :
    (rt.loadRecords mem base i n).length = n := by
  rw [loadRecords, List.length_map, List.length_range']

/-- Records depend on their own words only. -/
theorem loadRecord_congr {mem mem' : Memory F} {addr : Nat}
    (same : ∀ k < RECORD, mem (addr + k) = mem' (addr + k)) :
    rt.loadRecord mem addr = rt.loadRecord mem' addr := by
  have h0 := same 0 (by decide)
  rw [Nat.add_zero] at h0
  simp only [loadRecord, loadFloat, loadInt, h0, same 1 (by decide), same 2 (by decide),
    same 3 (by decide), same CONF (by decide), same CLASS_INDEX (by decide)]

theorem loadRecords_congr {mem mem' : Memory F} {base i n : Nat}
    (same : ∀ j, i ≤ j → j < i + n →
      rt.loadRecord mem (base + RECORD * j) = rt.loadRecord mem' (base + RECORD * j)) :
    rt.loadRecords mem base i n = rt.loadRecords mem' base i n := by
  rw [loadRecords, loadRecords]
  apply List.map_congr_left
  intro j hj
  rw [List.mem_range'_1] at hj
  exact same j hj.1 hj.2

theorem loadFloat_store_of_ne (mem : Memory F) {addr other : Nat} (c : Cell F)
    (h : other ≠ addr) : rt.loadFloat (mem.store addr c) other = rt.loadFloat mem other := by
  rw [loadFloat, Memory.store_apply, if_neg h, loadFloat]

@[simp] theorem loadRecord_storeRecord (mem : Memory F) (addr : Nat) (r : OdPpOutBuffer F) :
    rt.loadRecord (mem.storeRecord addr r) addr = r := by
  simp [loadRecord, loadFloat, loadInt, Memory.storeRecord, Memory.store_apply, CONF, CLASS_INDEX]

theorem loadRecord_storeRecord_of_ne (mem : Memory F) (base : Nat) {i j : Nat}
    (r : OdPpOutBuffer F) (h : j ≠ i) :
    rt.loadRecord (mem.storeRecord (base + RECORD * i) r) (base + RECORD * j) =
      rt.loadRecord mem (base + RECORD * j) := by
  apply rt.loadRecord_congr
  intro k hk
  apply mem.storeRecord_of_lt
  simp only [RECORD] at hk ⊢
  omega

/-- A confidence stored into record `i` changes that field of that record. -/
theorem loadRecord_store_conf (mem : Memory F) (base i j : Nat) (c : F) :
    rt.loadRecord (mem.store (base + RECORD * i + CONF) (.float c)) (base + RECORD * j) =
      if j = i then { rt.loadRecord mem (base + RECORD * i) with conf := c }
      else rt.loadRecord mem (base + RECORD * j) := by
  by_cases h : j = i
  · subst h
    rw [if_pos rfl]
    simp [loadRecord, loadFloat, loadInt, Memory.store_apply, CONF, CLASS_INDEX]
  · rw [if_neg h]
    apply rt.loadRecord_congr
    intro k hk
    rw [Memory.store_apply, if_neg]
    simp only [RECORD, CONF] at hk ⊢
    omega

/-- An array read back after it was stored. -/
theorem loadRecords_storeRecords (mem : Memory F) (base i : Nat) (rs : List (OdPpOutBuffer F)) :
    rt.loadRecords (mem.storeRecords (base + RECORD * i) rs) base i rs.length = rs ∧
      ∀ j < i, rt.loadRecord (mem.storeRecords (base + RECORD * i) rs) (base + RECORD * j) =
        rt.loadRecord mem (base + RECORD * j) := by
  induction rs generalizing mem i with
  | nil => exact ⟨rfl, fun j _ => rfl⟩
  | cons r rs ih =>
      have next : base + RECORD * i + RECORD = base + RECORD * (i + 1) := by
        rw [Nat.mul_succ, Nat.add_assoc]
      obtain ⟨rest, before⟩ := ih (mem.storeRecord (base + RECORD * i) r) (i + 1)
      rw [Memory.storeRecords, next, List.length_cons, loadRecords_succ, rest,
        before i (Nat.lt_succ_self i), loadRecord_storeRecord]
      refine ⟨rfl, fun j hj => ?_⟩
      rw [before j (by omega), rt.loadRecord_storeRecord_of_ne mem base r (by omega)]

end Runtime
end PeopleDetection
