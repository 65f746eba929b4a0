import PeopleDetection.EpochController.Loader
import PeopleDetection.Library.Loops

/-!
# Tables of a binary

What a memory holds: a table with given entries, and a binary with a given blob. On a memory
that holds a table, every function of the loader does what its entries say.
-/

namespace PeopleDetection.EpochController

open Library

/-! ## Words as bytes -/

/-- The bytes of words, the least significant one first. -/
def bytesOf (words : List (BitVec 32)) : Bytes :=
  words.flatMap fun w => (List.range 4).map fun k => ⟨w.extractLsb' (8 * k) 8⟩

theorem getElem?_bytesOf (words : List (BitVec 32)) (i : ℕ) {k : ℕ} (hk : k < 4) :
    (bytesOf words)[4 * i + k]? = words[i]?.map fun w => ⟨w.extractLsb' (8 * k) 8⟩ := by
  induction words generalizing i with
  | nil => rfl
  | cons w words ih =>
      have length : ((List.range 4).map fun k => (⟨w.extractLsb' (8 * k) 8⟩ : UInt8)).length = 4 :=
        rfl
      rw [bytesOf, List.flatMap_cons]
      cases i with
      | zero =>
          rw [List.getElem?_append_left (by rw [length]; omega), List.getElem?_map,
            List.getElem?_range (by omega)]
          simp
      | succ i =>
          rw [List.getElem?_append_right (by rw [length]; omega), length,
            show 4 * (i + 1) + k - 4 = 4 * i + k by omega]
          exact ih i

theorem entryAt_bytesOf (words : List (BitVec 32)) (i : ℕ) :
    entryAt (bytesOf words) (4 * i) = words[i]? := by
  have b0 := getElem?_bytesOf words i (k := 0) (by decide)
  have b1 := getElem?_bytesOf words i (k := 1) (by decide)
  have b2 := getElem?_bytesOf words i (k := 2) (by decide)
  have b3 := getElem?_bytesOf words i (k := 3) (by decide)
  rw [Nat.add_zero] at b0
  rw [entryAt, b0, b1, b2, b3]
  cases words[i]? with
  | none => rfl
  | some w =>
      refine congrArg some ?_
      apply BitVec.eq_of_getLsbD_eq
      intro b hb
      simp only [BitVec.getLsbD_append, BitVec.getLsbD_extractLsb']
      obtain h | h | h | h : b < 8 ∨ (8 ≤ b ∧ b < 16) ∨ (16 ≤ b ∧ b < 24) ∨ 24 ≤ b := by omega
      · simp [h]
      · simp [show ¬ b < 8 by omega, show b - 8 < 8 by omega, show 8 + (b - 8) = b by omega]
      · simp [show ¬ b < 8 by omega, show ¬ b - 8 < 8 by omega, show b - 8 - 8 < 8 by omega,
          show 16 + (b - 8 - 8) = b by omega]
      · simp [show ¬ b < 8 by omega, show ¬ b - 8 < 8 by omega, show ¬ b - 8 - 8 < 8 by omega,
          show b - 8 - 8 - 8 < 8 by omega, show 24 + (b - 8 - 8 - 8) = b by omega]

/-! ## Entries -/

/-- A string of C, without its end. -/
abbrev Identifier : Type := { s : Bytes // NUL ∉ s }

/-- An entry of a table: its identifier, and the instructions that it lists. -/
structure Entry where
  id : Identifier
  offsets : List ECFileEntry

abbrev Relocation : Type := Entry

structure Patch extends Entry where
  mask : BitVec 32

/-- The words of a blob that an entry lists. -/
def Entry.slots (e : Entry) : List ℕ := e.offsets.map fun offset => (offset + 2).toNat

/-- The string at a pointer. -/
def StringAt (mem : Bytes) (p : ℕ) (s : Bytes) : Prop :=
  (∀ i b, s[i]? = some b → mem[p + i]? = some b) ∧ mem[p + s.length]? = some NUL

/-- The entry at an index, with the pointer to its list in a given column. -/
structure EntryAt (stride : BitVec 32) (list : ℕ) (mem : Bytes) (ptr : ℕ) (idx : BitVec 32)
    (e : Entry) : Prop where
  id : ∃ o, entryAt mem (column stride ptr idx 1) = some o ∧ StringAt mem (ptr + o.toNat) e.id.1
  num : ∃ n, entryAt mem (column stride ptr idx (list - 1)) = some n ∧ n.toNat = e.offsets.length
  offset : ∃ o, entryAt mem (column stride ptr idx list) = some o ∧ o % 4 = 0 ∧
    ∀ k w, e.offsets[k]? = some w → entryAt mem (ptr + o.toNat + 4 * k) = some w

/-- The table at a pointer. -/
structure TableAt (stride : BitVec 32) (list : ℕ) (mem : Bytes) (ptr : ℕ) (es : List Entry) :
    Prop where
  size : ∃ n, entryAt mem ptr = some n ∧ n.toNat = es.length
  entry : ∀ i e, es[i]? = some e → EntryAt stride list mem ptr (BitVec.ofNat 32 i) e

abbrev RelocTableAt : Bytes → ℕ → List Relocation → Prop := TableAt 3 3

structure PatchTableAt (mem : Bytes) (ptr : ℕ) (patches : List Patch) : Prop where
  table : TableAt 4 4 mem ptr (patches.map (·.toEntry))
  mask : ∀ i p, patches[i]? = some p →
    entryAt mem (column 4 ptr (BitVec.ofNat 32 i) 2) = some p.mask

/-! ## Identifiers -/

theorem strcmpEq_eq {mem : Bytes} {p : ℕ} {s id : Bytes} (string : StringAt mem p s)
    (noNul : NUL ∉ s) (noNul' : NUL ∉ id) : strcmpEq mem id p = some (decide (s = id)) := by
  induction id generalizing p s with
  | nil =>
      rw [strcmpEq]
      cases s with
      | nil =>
          have stop := string.2
          rw [List.length_nil, Nat.add_zero] at stop
          rw [stop]
          rfl
      | cons c s =>
          have first := string.1 0 c rfl
          rw [Nat.add_zero] at first
          have other : c ≠ NUL := fun h => noNul (h ▸ List.mem_cons_self)
          rw [first, Option.map_some, decide_eq_false (List.cons_ne_nil c s), beq_false_of_ne other]
  | cons b id ih =>
      rw [strcmpEq]
      rw [List.mem_cons, not_or] at noNul'
      cases s with
      | nil =>
          have stop := string.2
          rw [List.length_nil, Nat.add_zero] at stop
          rw [stop, Option.bind_some, if_neg noNul'.1, decide_eq_false (List.cons_ne_nil b id).symm]
      | cons c s =>
          have first := string.1 0 c rfl
          rw [Nat.add_zero] at first
          rw [first, Option.bind_some]
          by_cases same : c = b
          · subst same
            have behind : StringAt mem (p + 1) s := by
              refine ⟨fun i x hi => ?_, ?_⟩
              · rw [Nat.add_assoc, Nat.add_comm 1 i]
                exact string.1 (i + 1) x hi
              · rw [Nat.add_assoc, Nat.add_comm 1]
                exact string.2
            rw [if_pos rfl, ih behind (fun h => noNul (List.mem_cons_of_mem c h)) noNul'.2]
            simp
          · rw [if_neg same, decide_eq_false fun h => same (List.cons.inj h).1]

section Spec

variable {stride : BitVec 32} {list : ℕ} {mem : Bytes} {ptr : ℕ} {es : List Entry}

/-- The index of the first entry with an identifier. -/
def indexOf (es : List Entry) (id : Identifier) : Option ℕ :=
  es.findIdx? fun e => decide (e.id = id)

theorem lt_of_indexOf {id : Identifier} {i : ℕ} (h : indexOf es id = some i) : i < es.length := by
  rw [indexOf, List.findIdx?_eq_some_iff_getElem] at h
  exact h.1

/-- Where no two entries have one identifier, each is found by its own. -/
theorem indexOf_of_nodup (distinct : (es.map Entry.id).Nodup) {i : ℕ} {e : Entry}
    (here : es[i]? = some e) : indexOf es e.id = some i := by
  obtain ⟨inside, rfl⟩ := List.getElem?_eq_some_iff.mp here
  rw [indexOf, List.findIdx?_eq_some_iff_getElem]
  refine ⟨inside, decide_eq_true rfl, fun j before same => ?_⟩
  have there : j < (es.map Entry.id).length := by
    rw [List.length_map]
    exact Nat.lt_trans before inside
  have equal : (es.map Entry.id)[j]? = (es.map Entry.id)[i]? := by
    rw [List.getElem?_map, List.getElem?_map, List.getElem?_eq_getElem (before.trans inside),
      List.getElem?_eq_getElem inside]
    exact congrArg some (of_decide_eq_true same)
  exact before.ne ((List.getElem?_inj there distinct).mp equal)

/-- The search finds the first entry with an identifier. -/
theorem findId_eq (table : TableAt stride list mem ptr es) (id : Identifier) :
    findId mem stride ptr id.1 (List.range es.length) =
      some ((indexOf es id).map (BitVec.ofNat 32)) := by
  have search (k : ℕ) (rest : List Entry) (hrest : es.drop k = rest) :
      findId mem stride ptr id.1 (List.range' k rest.length) =
        some ((indexOf rest id).map fun i => BitVec.ofNat 32 (i + k)) := by
    induction rest generalizing k with
    | nil => rfl
    | cons e rest ih =>
        have here : es[k]? = some e := by
          rw [← List.head?_drop, hrest]
          rfl
        have later := ih (k + 1) (by rw [← List.tail_drop, hrest]; rfl)
        obtain ⟨o, offset, string⟩ := (table.entry k e here).id
        have compared := strcmpEq_eq string e.id.2 id.2
        rw [List.length_cons, List.range'_succ, findId, offset]
        simp only [Option.bind_eq_bind, Option.bind_some, compared, later, indexOf,
          List.findIdx?_cons]
        by_cases same : e.id = id
        · simp [same]
        · have differ : e.id.1 ≠ id.1 := fun h => same (Subtype.ext h)
          simp [same, differ, Function.comp_def, Nat.add_assoc, Nat.add_comm 1 k]
  have all := search 0 es (List.drop_zero)
  rw [List.range_eq_range', all]
  rfl

theorem getNum_eq (table : TableAt stride list mem ptr es) :
    ∃ n, getNum mem (some ptr) = some n ∧ n.toNat = es.length := table.size

/-- The identifier of every entry can be read back. -/
theorem getId_eq (table : TableAt stride list mem ptr es) (idx : BitVec 32) :
    match es[idx.toNat]? with
    | some e => ∃ p, getId stride mem (some ptr) idx = some (some p) ∧ StringAt mem p e.id.1
    | none => getId stride mem (some ptr) idx = some none := by
  obtain ⟨n, size, length⟩ := table.size
  rw [getId]
  simp only [size, Option.bind_eq_bind, Option.bind_some]
  cases here : es[idx.toNat]? with
  | some e =>
      have inside : idx < n := by
        rw [BitVec.lt_def, length]
        exact (List.getElem?_eq_some_iff.mp here).1
      obtain ⟨o, offset, string⟩ := (table.entry _ e here).id
      rw [BitVec.ofNat_toNat, BitVec.setWidth_eq] at offset
      exact ⟨_, by rw [if_pos inside, offset]; rfl, string⟩
  | none =>
      have outside : ¬ idx < n := by
        rw [BitVec.lt_def, length, not_lt]
        exact List.getElem?_eq_none_iff.mp here
      rw [if_neg outside]

/-! ## Edits -/

/-- The loop over a list of offsets edits the words that it lists. -/
theorem foldlM_editListed {offsets : List ECFileEntry} {p : ℕ}
    (listed : ∀ k w, offsets[k]? = some w → entryAt mem (p + 4 * k) = some w)
    (f : ECInstr → ECInstr) {blob : List ECInstr}
    (inside : ∀ k ∈ offsets.map fun offset => (offset + 2).toNat, k < blob.length) :
    (List.range offsets.length).foldlM (editListed mem f p) blob =
      some (edited f (offsets.map fun offset => (offset + 2).toNat) blob) := by
  have turns (n : ℕ) (le : n ≤ offsets.length) :
      (List.range n).foldlM (editListed mem f p) blob =
        ((offsets.map fun offset => (offset + 2).toNat).take n).foldlM (editAt f) blob := by
    induction n with
    | zero => rfl
    | succ n ih =>
        have here : offsets[n]? = some offsets[n] := List.getElem?_eq_getElem le
        rw [List.range_succ, List.take_add_one, List.foldlM_append, List.foldlM_append,
          ih (Nat.le_of_succ_le le), List.getElem?_map, here]
        congr 1
        funext blob
        simp only [List.foldlM_cons, List.foldlM_nil, editListed, listed n _ here,
          Option.map_some, Option.toList_some, Option.bind_some]
  have all := turns offsets.length (Nat.le_refl _)
  rw [List.take_of_length_le (by rw [List.length_map])] at all
  rw [all, foldlM_editAt inside]

end Spec
end PeopleDetection.EpochController
