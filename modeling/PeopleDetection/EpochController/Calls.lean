import PeopleDetection.EpochController.Settings

/-!
# Calls of the loader

A program relocates and patches a blob by any sequence of calls, by index or by identifier.
It keeps a variable with the last base of each relocation, as the loader asks for.
-/

namespace PeopleDetection.EpochController

open Library

inductive Call where
  | reloc (idx : BitVec 32) (base : ECAddr)
  | relocById (id : Identifier) (base : ECAddr)
  | patch (idx value : BitVec 32)
  | patchById (id : Identifier) (value : BitVec 32)

/-- A blob in memory, and the variables with the last bases. -/
structure Loaded where
  blob : List ECInstr
  prev_base : ℕ → ECAddr

/-- The memories of the two tables, and the pointers to them. -/
structure TablePtrs where
  relocMem : Bytes
  reloc_table_ptr : Option ℕ
  patchMem : Bytes
  patch_table_ptr : Option ℕ

namespace Linkage

variable {size : ℕ} (link : Linkage size)

/-- The variable that belongs to an identifier. -/
def variableOf (id : Identifier) : ℕ := (indexOf link.relocs id).getD link.relocs.length

/-- A call, and its result. -/
def call (ptrs : TablePtrs) : Call → Loaded → Option (Bool × Loaded)
  | .reloc idx base, s =>
      (ec_reloc ptrs.relocMem ptrs.reloc_table_ptr s.blob idx base
        (s.prev_base idx.toNat)).map fun r =>
          (r.1, ⟨r.2.1, Function.update s.prev_base idx.toNat r.2.2⟩)
  | .relocById id base, s =>
      (ec_reloc_by_id ptrs.relocMem ptrs.reloc_table_ptr s.blob id.1 base
        (s.prev_base (link.variableOf id))).map fun r =>
          (r.1, ⟨r.2.1, Function.update s.prev_base (link.variableOf id) r.2.2⟩)
  | .patch idx value, s =>
      (ec_patch ptrs.patchMem ptrs.patch_table_ptr s.blob idx value).map fun r =>
        (r.1, { s with blob := r.2 })
  | .patchById id value, s =>
      (ec_patch_by_id ptrs.patchMem ptrs.patch_table_ptr s.blob id.1 value).map fun r =>
        (r.1, { s with blob := r.2 })

/-- A sequence of calls, and their results. -/
def calls (ptrs : TablePtrs) : List Call → Loaded → Option (List Bool × Loaded)
  | [], s => some ([], s)
  | c :: cs, s => do
      let (ok, s) ← link.call ptrs c s
      let (oks, s) ← calls ptrs cs s
      some (ok :: oks, s)

/-! ## What the calls ask for -/

/-- A base and a value are set where there is an entry. The base of an unknown index is
remembered. -/
def set (s : Settings) : Call → Bool × Settings
  | .reloc idx base => (true, { s with bases := Function.update s.bases idx.toNat base })
  | .relocById id base =>
      match indexOf link.relocs id with
      | some i => (true, { s with bases := Function.update s.bases i base })
      | none => (decide (base = s.bases link.relocs.length), s)
  | .patch idx value =>
      (true, if idx.toNat < link.patches.length then
        { s with values := Function.update s.values idx.toNat (some value) } else s)
  | .patchById id value =>
      match indexOf (link.patches.map (·.toEntry)) id with
      | some i => (true, { s with values := Function.update s.values i (some value) })
      | none => (false, s)

def setAll (s : Settings) : List Call → List Bool × Settings
  | [] => ([], s)
  | c :: cs =>
      let (ok, s) := link.set s c
      let (oks, s) := setAll s cs
      (ok :: oks, s)

/-- The blob and the variables with the given settings. -/
def loaded (code : List ECInstr) (s : Settings) : Loaded := ⟨link.blobOf code s, s.bases⟩

/-- A blob that was copied has no settings. -/
theorem loaded_initial (code : List ECInstr) : ⟨code, 0⟩ = link.loaded code .initial := by
  rw [loaded, blobOf_initial]
  rfl

/-! ## Entries -/

section Entries

variable {link} {mem : Bytes} {ptr i : ℕ} {code : List ECInstr} {s : Settings}

theorem relocEntry_eq (table : RelocTableAt mem ptr link.relocs) (fits : code.length = size)
    {e : Relocation} (here : link.relocs[i]? = some e) (base : ECAddr) :
    relocEntry mem (link.blobOf code s) ptr (BitVec.ofNat 32 i) base (s.bases i) =
      some (true, link.blobOf code { s with bases := Function.update s.bases i base }, base) := by
  obtain ⟨-, ⟨n, num, length⟩, ⟨o, offset, aligned, listed⟩⟩ := table.entry i e here
  have inside : ∀ k ∈ e.slots, k < (link.blobOf code s).length := by
    rw [length_blobOf, fits]
    exact link.relocInside e (List.mem_of_getElem? here)
  rw [relocEntry]
  simp only [num, offset, aligned, length, Option.bind_eq_bind, Option.bind_some, ne_eq,
    not_true_eq_false, if_false, foldlM_editListed listed _ inside]
  exact congrArg (fun blob => some (true, blob, base)) (link.edited_reloc here code s base)

theorem patchEntry_eq (table : PatchTableAt mem ptr link.patches) (fits : code.length = size)
    {p : Patch} (here : link.patches[i]? = some p) (value : BitVec 32) :
    patchEntry mem (link.blobOf code s) ptr (BitVec.ofNat 32 i) value =
      some (true,
        link.blobOf code { s with values := Function.update s.values i (some value) }) := by
  have entry : (link.patches.map (·.toEntry))[i]? = some p.toEntry := by
    rw [List.getElem?_map, here]
    rfl
  obtain ⟨-, ⟨n, num, length⟩, ⟨o, offset, aligned, listed⟩⟩ := table.table.entry i _ entry
  have inside : ∀ k ∈ p.slots, k < (link.blobOf code s).length := by
    rw [length_blobOf, fits]
    exact link.patchInside p (List.mem_of_getElem? here)
  rw [patchEntry]
  simp only [table.mask i p here, num, offset, aligned, length, Option.bind_eq_bind,
    Option.bind_some, ne_eq, not_true_eq_false, if_false, foldlM_editListed listed _ inside]
  exact congrArg (fun blob => some (true, blob)) (link.edited_patch here code s value)

/-- Moving a base to where it is changes nothing. -/
theorem update_base (s : Settings) (i : ℕ) :
    ({ s with bases := Function.update s.bases i (s.bases i) } : Settings) = s := by
  rw [Function.update_eq_self]

/-- A base without a relocation has no words. -/
theorem blobOf_update_of_ge (outside : link.relocs.length ≤ i) (base : ECAddr) :
    link.blobOf code { s with bases := Function.update s.bases i base } = link.blobOf code s := by
  have length : (link.relocs.map Entry.slots).length ≤ i := by rwa [List.length_map]
  rw [blobOf, blobOf, relocated, relocated]
  simp only [baseAt_update_of_ge length]

end Entries

/-! ## Calls -/

section Calls

variable {link} {mem : Bytes} {ptr : ℕ} {code : List ECInstr}

/-- An index is below the size of a table exactly if there is an entry. -/
theorem getElem?_of_lt {α : Type} {l : List α} {idx n : BitVec 32} (length : n.toNat = l.length)
    (inside : idx < n) : ∃ e, l[idx.toNat]? = some e := by
  rw [BitVec.lt_def, length] at inside
  exact ⟨_, List.getElem?_eq_getElem inside⟩

theorem ec_reloc_eq (table : RelocTableAt mem ptr link.relocs) (fits : code.length = size)
    (s : Settings) (idx : BitVec 32) (base : ECAddr) :
    ec_reloc mem (some ptr) (link.blobOf code s) idx base (s.bases idx.toNat) =
      some (true, link.blobOf code { s with bases := Function.update s.bases idx.toNat base },
        base) := by
  rw [ec_reloc]
  by_cases same : base = s.bases idx.toNat
  · rw [if_pos same, same, update_base]
  · obtain ⟨n, size, length⟩ := table.size
    rw [if_neg same, size, Option.bind_eq_bind, Option.bind_some]
    by_cases inside : idx < n
    · obtain ⟨e, here⟩ := getElem?_of_lt length inside
      have entry := relocEntry_eq (s := s) table fits here base
      rw [BitVec.ofNat_toNat, BitVec.setWidth_eq] at entry
      rw [if_pos inside, entry]
    · rw [if_neg inside, blobOf_update_of_ge]
      rw [BitVec.lt_def, length, not_lt] at inside
      exact inside

theorem ec_reloc_by_id_eq (table : RelocTableAt mem ptr link.relocs) (fits : code.length = size)
    (s : Settings) (id : Identifier) (base : ECAddr) :
    ec_reloc_by_id mem (some ptr) (link.blobOf code s) id.1 base
        (s.bases (link.variableOf id)) =
      some (match indexOf link.relocs id with
        | some i =>
            (true, link.blobOf code { s with bases := Function.update s.bases i base }, base)
        | none => (decide (base = s.bases link.relocs.length), link.blobOf code s,
            s.bases link.relocs.length)) := by
  rw [ec_reloc_by_id]
  obtain ⟨n, size, length⟩ := table.size
  by_cases same : base = s.bases (link.variableOf id)
  · rw [if_pos same, variableOf] at *
    cases known : indexOf link.relocs id with
    | some i =>
        rw [known, Option.getD_some] at same
        rw [Option.getD_some, same]
        exact congrArg (fun s => some (true, link.blobOf code s, _)) (update_base s i).symm
    | none =>
        rw [known, Option.getD_none] at same
        rw [Option.getD_none, decide_eq_true same]
  · rw [if_neg same, size, Option.bind_eq_bind, Option.bind_some, length,
      findId_eq table id, Option.bind_eq_bind, Option.bind_some]
    rw [variableOf] at *
    cases known : indexOf link.relocs id with
    | some i =>
        have here := List.getElem?_eq_getElem (lt_of_indexOf known)
        exact relocEntry_eq table fits here base
    | none =>
        rw [known, Option.getD_none] at same
        rw [Option.map_none, decide_eq_false same]
        rfl

theorem ec_patch_eq (table : PatchTableAt mem ptr link.patches) (fits : code.length = size)
    (s : Settings) (idx value : BitVec 32) :
    ec_patch mem (some ptr) (link.blobOf code s) idx value =
      some (true, link.blobOf code (if idx.toNat < link.patches.length then
        { s with values := Function.update s.values idx.toNat (some value) } else s)) := by
  obtain ⟨n, size, length⟩ := table.table.size
  rw [List.length_map] at length
  rw [ec_patch]
  rw [size, Option.bind_eq_bind, Option.bind_some]
  by_cases inside : idx < n
  · obtain ⟨p, here⟩ := getElem?_of_lt length inside
    have entry := patchEntry_eq (s := s) table fits here value
    rw [BitVec.ofNat_toNat, BitVec.setWidth_eq] at entry
    rw [if_pos inside, entry, if_pos (List.getElem?_eq_some_iff.mp here).1]
  · rw [if_neg inside, if_neg]
    rw [BitVec.lt_def, length] at inside
    exact inside

theorem ec_patch_by_id_eq (table : PatchTableAt mem ptr link.patches) (fits : code.length = size)
    (s : Settings) (id : Identifier) (value : BitVec 32) :
    ec_patch_by_id mem (some ptr) (link.blobOf code s) id.1 value =
      some (match indexOf (link.patches.map (·.toEntry)) id with
        | some i =>
            (true, link.blobOf code { s with values := Function.update s.values i (some value) })
        | none => (false, link.blobOf code s)) := by
  obtain ⟨n, size, length⟩ := table.table.size
  rw [ec_patch_by_id]
  rw [size, Option.bind_eq_bind, Option.bind_some, length, findId_eq table.table id,
    Option.bind_eq_bind, Option.bind_some]
  cases known : indexOf (link.patches.map (·.toEntry)) id with
  | some i =>
      have inside := lt_of_indexOf known
      rw [List.length_map] at inside
      exact patchEntry_eq table fits (List.getElem?_eq_getElem inside) value
  | none => rfl

/-- The pointers are to the tables of the blob. -/
structure Holds (link : Linkage size) (ptrs : TablePtrs) (rp pp : ℕ) : Prop where
  reloc_table_ptr : ptrs.reloc_table_ptr = some rp
  relocs : RelocTableAt ptrs.relocMem rp link.relocs
  patch_table_ptr : ptrs.patch_table_ptr = some pp
  patches : PatchTableAt ptrs.patchMem pp link.patches

variable {ptrs : TablePtrs} {rp pp : ℕ}

/-- A call leaves the blob of the settings that it asks for. -/
theorem call_eq (holds : link.Holds ptrs rp pp) (fits : code.length = size) (s : Settings)
    (c : Call) :
    link.call ptrs c (link.loaded code s) =
      some ((link.set s c).1, link.loaded code (link.set s c).2) := by
  obtain ⟨reloc_table_ptr, relocs, patch_table_ptr, patches⟩ := holds
  cases c with
  | reloc idx base =>
      simp only [call, loaded, reloc_table_ptr, ec_reloc_eq relocs fits]
      rfl
  | relocById id base =>
      simp only [call, loaded, reloc_table_ptr, ec_reloc_by_id_eq relocs fits]
      cases known : indexOf link.relocs id with
      | some i => simp [set, known, variableOf]
      | none => simp [set, known, variableOf]
  | patch idx value =>
      simp only [call, loaded, patch_table_ptr, ec_patch_eq patches fits, set]
      split <;> rfl
  | patchById id value =>
      simp only [call, loaded, patch_table_ptr, ec_patch_by_id_eq patches fits]
      cases known : indexOf (link.patches.map (·.toEntry)) id with
      | some i => simp [set, known]
      | none => simp [set, known]

/-- A program that does not know the relocations can count them. Every index below the number
has an identifier, and a relocation by the one is a relocation by the other. -/
theorem relocs_enumerated (holds : link.Holds ptrs rp pp) (fits : code.length = size)
    (distinct : (link.relocs.map Entry.id).Nodup) :
    ∃ n, ec_get_num_relocs ptrs.relocMem ptrs.reloc_table_ptr = some n ∧
      n.toNat = link.relocs.length ∧ ∀ idx,
        if idx < n then
          ∃ (p : ℕ) (id : Identifier),
            ec_get_reloc_id ptrs.relocMem ptrs.reloc_table_ptr idx = some (some p) ∧
            StringAt ptrs.relocMem p id.1 ∧ ∀ s base,
              link.call ptrs (.relocById id base) (link.loaded code s) =
                link.call ptrs (.reloc idx base) (link.loaded code s)
        else ec_get_reloc_id ptrs.relocMem ptrs.reloc_table_ptr idx = some none := by
  obtain ⟨n, number, length⟩ := getNum_eq holds.relocs
  rw [← holds.reloc_table_ptr] at number
  refine ⟨n, number, length, fun idx => ?_⟩
  have found := getId_eq holds.relocs idx
  rw [← holds.reloc_table_ptr] at found
  split_ifs with inside
  · obtain ⟨e, here⟩ := getElem?_of_lt length inside
    rw [here] at found
    obtain ⟨p, pointer, string⟩ := found
    refine ⟨p, e.id, pointer, string, fun s base => ?_⟩
    rw [call_eq holds fits, call_eq holds fits, set, set, indexOf_of_nodup distinct here]
  · rw [BitVec.lt_def, length, not_lt] at inside
    rw [List.getElem?_eq_none_iff.mpr inside] at found
    exact found

/-- The same of the patches, each of which also has its mask. -/
theorem patches_enumerated (holds : link.Holds ptrs rp pp) (fits : code.length = size)
    (distinct : (link.patches.map (·.toEntry.id)).Nodup) :
    ∃ n, ec_get_num_patches ptrs.patchMem ptrs.patch_table_ptr = some n ∧
      n.toNat = link.patches.length ∧ ∀ idx,
        if idx < n then
          ∃ (p : ℕ) (q : Patch), link.patches[idx.toNat]? = some q ∧
            ec_get_patch_id ptrs.patchMem ptrs.patch_table_ptr idx = some (some p) ∧
            StringAt ptrs.patchMem p q.id.1 ∧
            ec_get_patch_mask ptrs.patchMem ptrs.patch_table_ptr idx = some q.mask ∧ ∀ s value,
              link.call ptrs (.patchById q.id value) (link.loaded code s) =
                link.call ptrs (.patch idx value) (link.loaded code s)
        else ec_get_patch_id ptrs.patchMem ptrs.patch_table_ptr idx = some none ∧
          ec_get_patch_mask ptrs.patchMem ptrs.patch_table_ptr idx = some 0 := by
  obtain ⟨n, number, length⟩ := getNum_eq holds.patches.table
  have found := getId_eq holds.patches.table
  have masked (idx : BitVec 32) : ec_get_patch_mask ptrs.patchMem (some pp) idx =
      if idx < n then entryAt ptrs.patchMem (column 4 pp idx 2) else some 0 := by
    rw [ec_get_patch_mask]
    simp only [show entryAt ptrs.patchMem pp = some n from number, Option.bind_eq_bind,
      Option.bind_some]
  rw [← holds.patch_table_ptr] at number found masked
  rw [List.length_map] at length
  refine ⟨n, number, length, fun idx => ?_⟩
  have found := found idx
  rw [List.getElem?_map] at found
  split_ifs with inside
  · obtain ⟨q, here⟩ := getElem?_of_lt length inside
    rw [here] at found
    obtain ⟨p, pointer, string⟩ := found
    have mask := holds.patches.mask _ q here
    rw [BitVec.ofNat_toNat, BitVec.setWidth_eq] at mask
    refine ⟨p, q, here, pointer, string, ?_, fun s value => ?_⟩
    · rw [masked, if_pos inside, mask]
    · have entry : (link.patches.map (·.toEntry))[idx.toNat]? = some q.toEntry := by
        rw [List.getElem?_map, here]
        rfl
      have distinct' : ((link.patches.map (·.toEntry)).map Entry.id).Nodup := by
        rwa [List.map_map]
      rw [call_eq holds fits, call_eq holds fits, set, set, indexOf_of_nodup distinct' entry,
        if_pos (List.getElem?_eq_some_iff.mp here).1]
  · have none : ec_get_patch_mask ptrs.patchMem ptrs.patch_table_ptr idx = some 0 := by
      rw [masked, if_neg inside]
    rw [BitVec.lt_def, length, not_lt] at inside
    rw [List.getElem?_eq_none_iff.mpr inside] at found
    exact ⟨found, none⟩

theorem calls_loaded (holds : link.Holds ptrs rp pp) (fits : code.length = size)
    (cs : List Call) (s : Settings) :
    link.calls ptrs cs (link.loaded code s) =
      some ((link.setAll s cs).1, link.loaded code (link.setAll s cs).2) := by
  induction cs generalizing s with
  | nil => rfl
  | cons c cs ih =>
      rw [calls, call_eq holds fits]
      simp only [Option.bind_eq_bind, Option.bind_some, ih, setAll]

/-- Whatever relocations and patches are called for on a blob that was copied, and in whatever
order, none accesses memory outside of the tables and the blob, and the blob has the last
bases and values that were called for. -/
theorem calls_eq (holds : link.Holds ptrs rp pp) (fits : code.length = size) (cs : List Call) :
    link.calls ptrs cs ⟨code, 0⟩ =
      some ((link.setAll .initial cs).1, link.loaded code (link.setAll .initial cs).2) := by
  rw [loaded_initial link, calls_loaded holds fits]

end Calls
end Linkage

/-! ## A small binary -/

/-- A binary with the relocation `a` of two words, the patch `b` of one, and three
instructions. -/
def sample : Bytes :=
  bytesOf [ECASM_BINARY_MAGIC, 20, 48, 0, 76,
    1, 24, 2, 16, 0, 2, 97,
    1, 24, 0xff00, 1, 20, 1, 98,
    ECASM_BLOB_MAGIC, 3, 10, 0x1234, 30]

def sampleBlob : List ECInstr := [ECASM_BLOB_MAGIC, 3, 10, 0x1234, 30]

def sampleLinkage : Linkage 5 where
  relocs := [⟨⟨[97], by decide⟩, [0, 2]⟩]
  patches := [{ id := ⟨[98], by decide⟩, offsets := [1], mask := 0xff00 }]
  relocInside := by decide
  patchInside := by decide
  apart := by decide
  exclusive i k p q hp hq differ := by
    have first := (List.getElem?_eq_some_iff.mp hp).1
    have second := (List.getElem?_eq_some_iff.mp hq).1
    change i < 1 at first
    change k < 1 at second
    omega

theorem sample_relocs : RelocTableAt (sample.take 48) 20 sampleLinkage.relocs where
  size := ⟨1, by decide, rfl⟩
  entry i e he := by
    obtain rfl : i = 0 := Nat.lt_one_iff.mp (List.getElem?_eq_some_iff.mp he).1
    cases he
    exact ⟨⟨24, by decide, eq_some_of_getElem? (by decide), by decide⟩, ⟨2, by decide, rfl⟩,
      ⟨16, by decide, by decide, eq_some_of_getElem? (by decide)⟩⟩

theorem sample_patches : PatchTableAt (sample.take 76) 48 sampleLinkage.patches where
  table :=
    { size := ⟨1, by decide, rfl⟩
      entry := fun i e he => by
        obtain rfl : i = 0 := Nat.lt_one_iff.mp (List.getElem?_eq_some_iff.mp he).1
        cases he
        exact ⟨⟨24, by decide, eq_some_of_getElem? (by decide), by decide⟩, ⟨1, by decide, rfl⟩,
          ⟨20, by decide, by decide, eq_some_of_getElem? (by decide)⟩⟩ }
  mask i p hp := by
    obtain rfl : i = 0 := Nat.lt_one_iff.mp (List.getElem?_eq_some_iff.mp hp).1
    cases hp
    decide

def samplePtrs : TablePtrs := ⟨sample.take 48, some 20, sample.take 76, some 48⟩

theorem sample_holds : sampleLinkage.Holds samplePtrs 20 48 :=
  ⟨rfl, sample_relocs, rfl, sample_patches⟩

/-- Calls by index and by identifier; the last one has an unknown identifier. -/
def sampleCalls : List Call :=
  [.reloc 0 100, .patchById ⟨[98], by decide⟩ 0xffff, .relocById ⟨[97], by decide⟩ 7,
    .patch 0 0xabcd, .relocById ⟨[99], by decide⟩ 5]

theorem calls_eq_sample :
    (sampleLinkage.calls samplePtrs sampleCalls ⟨sampleBlob, 0⟩).map (fun r => (r.1, r.2.blob)) =
      some ([true, true, true, true, false], [ECASM_BLOB_MAGIC, 3, 17, 0xab34, 37]) := by
  rw [Linkage.calls_eq sample_holds rfl]
  decide

end PeopleDetection.EpochController
