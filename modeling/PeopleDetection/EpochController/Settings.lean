import Mathlib.Data.BitVec
import PeopleDetection.EpochController.Tables

/-!
# What a blob holds

A blob has two kinds of words that its binary leaves open. To a relocated word the base of
its buffer is added, and in a patched word the bits of a mask take a value. The state of a
blob is the last base of each relocation and the last value of each patch.

Every sequence of calls of the loader leaves the blob of the state that it asks for: neither
the calls in between nor their order leave a trace.
-/

namespace PeopleDetection.EpochController

open Library

/-! ## States -/

/-- The relocations and the patches of a blob of `size` words. No word is both relocated and
patched, and no bit belongs to two patches. -/
structure Linkage (size : ℕ) where
  relocs : List Relocation
  patches : List Patch
  relocInside : ∀ e ∈ relocs, ∀ k ∈ e.slots, k < size
  patchInside : ∀ p ∈ patches, ∀ k ∈ p.slots, k < size
  apart : ∀ e ∈ relocs, ∀ p ∈ patches, ∀ k ∈ e.slots, k ∉ p.slots
  exclusive : ∀ (i k : ℕ) (p q : Patch), patches[i]? = some p → patches[k]? = some q → i ≠ k →
    ∀ j ∈ p.slots, j ∈ q.slots → p.mask &&& q.mask = 0

/-- A base for each relocation, and a value for each patch that was made. -/
@[ext] structure Settings where
  bases : ℕ → ECAddr
  values : ℕ → Option (BitVec 32)

/-- The settings of a blob that was copied from its binary. -/
def Settings.initial : Settings := ⟨0, fun _ => none⟩

namespace Linkage

variable {size : ℕ} (link : Linkage size)

/-- What a patch makes of word `j`. -/
def setPatch (j i : ℕ) (value : Option (BitVec 32)) (w : ECInstr) : ECInstr :=
  match link.patches[i]?, value with
  | some p, some v => if j ∈ p.slots then patchWord p.mask v w else w
  | _, _ => w

/-- What all patches make of word `j`. -/
def patchedWord (values : ℕ → Option (BitVec 32)) (j : ℕ) (w : ECInstr) : ECInstr :=
  (List.range link.patches.length).foldl (fun w i => link.setPatch j i (values i) w) w

/-- The words with the given settings. -/
def blobOf (code : List ECInstr) (s : Settings) : List ECInstr :=
  (relocated (link.relocs.map Entry.slots) s.bases code).mapIdx (link.patchedWord s.values)

theorem getElem?_blobOf (code : List ECInstr) (s : Settings) (j : ℕ) :
    (link.blobOf code s)[j]? =
      (relocated (link.relocs.map Entry.slots) s.bases code)[j]?.map
        (link.patchedWord s.values j) :=
  List.getElem?_mapIdx

@[simp] theorem length_blobOf (code : List ECInstr) (s : Settings) :
    (link.blobOf code s).length = code.length := by
  rw [blobOf, List.length_mapIdx, length_relocated]

/-- A word that no patch changes is only relocated. -/
theorem patchedWord_eq_self {j : ℕ} {values : ℕ → Option (BitVec 32)}
    (still : ∀ i p, link.patches[i]? = some p → j ∈ p.slots → values i = none) (w : ECInstr) :
    link.patchedWord values j w = w := by
  apply List.foldl_fixed'
  intro i
  rw [setPatch.eq_def]
  cases hp : link.patches[i]? with
  | none => rfl
  | some p =>
      cases hv : values i with
      | none => rfl
      | some v => exact if_neg fun listed => by simp [still i p hp listed] at hv

theorem blobOf_initial (code : List ECInstr) : link.blobOf code .initial = code := by
  apply List.ext_getElem?
  intro j
  have unpatched : link.patchedWord Settings.initial.values j = id :=
    funext fun w => link.patchedWord_eq_self (fun _ _ _ _ => rfl) w
  rw [getElem?_blobOf, unpatched, Option.map_id]
  exact congrArg (·[j]?) relocated_zero

/-! ## One relocation -/

/-- Editing the words of a relocation moves its base. -/
theorem edited_reloc {i : ℕ} {e : Relocation} (here : link.relocs[i]? = some e)
    (code : List ECInstr) (s : Settings) (base : ECAddr) :
    edited (· + (base - s.bases i)) e.slots (link.blobOf code s) =
      link.blobOf code { s with bases := Function.update s.bases i base } := by
  have member := List.mem_of_getElem? here
  have inside : i < (link.relocs.map Entry.slots).length := by
    rw [List.length_map]
    exact (List.getElem?_eq_some_iff.mp here).1
  have slots : (link.relocs.map Entry.slots).getD i [] = e.slots := by
    rw [List.getD_eq_getElem?_getD, List.getElem?_map, here]
    rfl
  apply List.ext_getElem?
  intro j
  rw [getElem?_edited, getElem?_blobOf, getElem?_blobOf, ← edited_relocated inside, slots,
    getElem?_edited, Option.map_map, Option.map_map]
  congr 1
  funext w
  by_cases listed : j ∈ e.slots
  · have free (w : ECInstr) : link.patchedWord s.values j w = w :=
      link.patchedWord_eq_self (fun i p hp patched =>
        absurd patched (link.apart e member p (List.mem_of_getElem? hp) j listed)) w
    simp only [Function.comp_apply, free]
  · simp only [Function.comp_apply, List.count_eq_zero_of_not_mem listed, Function.iterate_zero, id]

/-! ## One patch -/

theorem getLsbD_patchWord (mask value w : BitVec 32) (b : ℕ) :
    (patchWord mask value w).getLsbD b =
      if mask.getLsbD b then value.getLsbD b else w.getLsbD b := by
  by_cases hb : b < 32
  · rw [patchWord, BitVec.getLsbD_or, BitVec.getLsbD_and, BitVec.getLsbD_and, BitVec.getLsbD_not]
    cases mask.getLsbD b <;> simp [hb]
  · simp only [BitVec.getLsbD_of_ge _ _ (Nat.le_of_not_lt hb), ite_self]

theorem patchWord_patchWord (mask value value' w : BitVec 32) :
    patchWord mask value (patchWord mask value' w) = patchWord mask value w := by
  apply BitVec.eq_of_getLsbD_eq
  intro b _
  simp only [getLsbD_patchWord]
  split <;> rfl

theorem patchWord_comm {mask mask' : BitVec 32} (apart : mask &&& mask' = 0)
    (value value' w : BitVec 32) :
    patchWord mask value (patchWord mask' value' w) =
      patchWord mask' value' (patchWord mask value w) := by
  apply BitVec.eq_of_getLsbD_eq
  intro b _
  have bit := congrArg (·.getLsbD b) apart
  rw [BitVec.getLsbD_and] at bit
  simp only [getLsbD_patchWord]
  cases h : mask.getLsbD b <;> cases h' : mask'.getLsbD b <;> simp_all

/-- Editing the words of a patch sets its value. -/
theorem edited_patch {i : ℕ} {p : Patch} (here : link.patches[i]? = some p)
    (code : List ECInstr) (s : Settings) (value : BitVec 32) :
    edited (patchWord p.mask value) p.slots (link.blobOf code s) =
      link.blobOf code { s with values := Function.update s.values i (some value) } := by
  apply List.ext_getElem?
  intro j
  have set : (fun w => if j ∈ p.slots then patchWord p.mask value w else w) =
      link.setPatch j i (some value) := by
    funext w
    simp only [setPatch, here]
  rw [getElem?_edited_of_idempotent (patchWord_patchWord p.mask value value), getElem?_blobOf,
    getElem?_blobOf, Option.map_map, set]
  congr 1
  funext w
  refine foldl_update ?_ ?_ List.nodup_range
    (List.mem_range.mpr (List.getElem?_eq_some_iff.mp here).1) s.values w
  · intro k b w differ
    cases hk : link.patches[k]? with
    | none => simp only [setPatch, hk]
    | some q =>
        cases b with
        | none => simp only [setPatch, hk]
        | some v =>
            simp only [setPatch, here, hk]
            by_cases hj : j ∈ p.slots
            · by_cases hj' : j ∈ q.slots
              · simp only [if_pos hj, if_pos hj']
                exact patchWord_comm (link.exclusive i k p q here hk differ j hj hj') _ _ _
              · simp only [if_neg hj']
            · simp only [if_neg hj]
  · intro b w
    cases b with
    | none => simp only [setPatch, here]
    | some v =>
        simp only [setPatch, here]
        split
        · exact patchWord_patchWord _ _ _ _
        · rfl

end Linkage
end PeopleDetection.EpochController
