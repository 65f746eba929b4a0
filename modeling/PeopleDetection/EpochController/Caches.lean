import PeopleDetection.EpochController.Loader
import PeopleDetection.Inference.Coherence

/-!
# The caches around a blob

The processor edits a blob through its cache, and the epoch controller reads the blob through
the cache of the NPU. Both may lose lines at any time, the processor may fetch lines in
advance, and other threads may store elsewhere.

A blob in memory is `Held` if the processor reads it, and `Agreed` if the epoch controller
reads the same.
-/

namespace PeopleDetection.EpochController

open Library

/-! ## Accesses -/

/-- The line of a word in the cache of the processor. The words of the memory are numbered. -/
def cacheLine (a : ℕ) : ℕ := 4 * a / CACHE_LINE

/-- Memory behind the cache of the processor, a register, and the cache of the NPU. -/
structure Caches where
  cached : Cached ℕ ℕ ECInstr
  reg : ECInstr
  npuPresent : ℕ → Bool
  npuData : ℕ → ECInstr

/-- Accesses of the processor and of the NPU. A store of the processor writes a value made of
its register. -/
inductive Access where
  | load (a : ℕ)
  | store (a : ℕ) (f : ECInstr → ECInstr)
  | clean (l : ℕ)
  | invalidate (l : ℕ)
  | npuInvalidate (l : ℕ)
  | npuFetch (l : ℕ)
  | npuStore (a : ℕ) (w : ECInstr)

/-- What may happen at any time. -/
inductive Disturbance where
  | evict (e : Eviction ℕ)
  | prefetch (l : ℕ)
  | npuDrop (l : ℕ)
  | store (a : ℕ) (w : ECInstr)

/-- `LL_ATON_Cache_NPU_Clean_Invalidate_Range`, for words. The NPU leaves no line of a blob
dirty. -/
def LL_ATON_Cache_NPU_Clean_Invalidate_Range (npuLine : ℕ → ℕ) (start len : ℕ) : List Access :=
  (List.range len).map fun i => .npuInvalidate (npuLine (start + i))

/-- `LL_ATON_Cache_MCU_Clean_Range`, for words. -/
def LL_ATON_Cache_MCU_Clean_Range (start len : ℕ) : List Access :=
  (linesOf (4 * start) (4 * len)).map .clean

namespace Caches

section Runs

variable (npuLine : ℕ → ℕ)

def exec : Access → Caches → Caches
  | .load a, m =>
      { m with cached := m.cached.fetch cacheLine (cacheLine a), reg := m.cached.view cacheLine a }
  | .store a f, m => { m with cached := m.cached.store cacheLine a (f m.reg) }
  | .clean l, m => { m with cached := m.cached.cleanLine cacheLine l }
  | .invalidate l, m => { m with cached := m.cached.invalidateLine l }
  | .npuInvalidate l, m => { m with npuPresent := Function.update m.npuPresent l false }
  | .npuFetch l, m =>
      if m.npuPresent l then m
      else
        { m with
          npuPresent := Function.update m.npuPresent l true
          npuData := fun a => if npuLine a = l then m.cached.mem a else m.npuData a }
  | .npuStore a w, m =>
      { m with cached := m.cached.directStore a w, npuData := Function.update m.npuData a w }

def disturb : Disturbance → Caches → Caches
  | .evict e, m => { m with cached := m.cached.evict cacheLine e }
  | .prefetch l, m => { m with cached := m.cached.fetch cacheLine l }
  | .npuDrop l, m => { m with npuPresent := Function.update m.npuPresent l false }
  | .store a w, m => { m with cached := m.cached.store cacheLine a w }

/-- Other threads do not store into the blob. -/
def Elsewhere (start len : ℕ) (_ : Caches) : Disturbance → Prop
  | .store a _ => a < start ∨ start + len ≤ a
  | _ => True

abbrev Runs (start len : ℕ) : List Access → Caches → Caches → Prop :=
  Run (exec npuLine) disturb (Elsewhere start len)

/-- What the epoch controller reads. -/
def ecReads (m : Caches) (a : ℕ) : ECInstr :=
  if m.npuPresent (npuLine a) then m.npuData a else m.cached.mem a

/-- An access of a program that leaves the blob alone. The NPU stores into none of its lines. -/
def Foreign (start len : ℕ) : Access → Prop
  | .store a _ => a < start ∨ start + len ≤ a
  | .npuStore a _ => ∀ i < len, npuLine a ≠ npuLine (start + i)
  | _ => True

end Runs

variable {npuLine : ℕ → ℕ} {start len i : ℕ} {w : ECInstr} {m m' : Caches} {ops : List Access}

/-! ## A word of the blob -/

theorem outside_ne {a : ℕ} (outside : a < start ∨ start + len ≤ a) (inside : i < len) :
    start + i ≠ a := by
  omega

/-- The processor keeps reading a word, whatever happens. -/
theorem holds_disturb (h : m.cached.Holds cacheLine (start + i) w) (inside : i < len)
    {e : Disturbance} (ok : Elsewhere start len m e) :
    (disturb e m).cached.Holds cacheLine (start + i) w := by
  cases e with
  | evict e => exact h.evict e
  | prefetch l => exact h.fetch l
  | npuDrop l => exact h
  | store a v => exact h.store_of_ne (outside_ne ok inside) v

/-- A word that is shared stays so. -/
theorem shared_disturb (h : m.cached.Shared cacheLine (start + i) w) (inside : i < len)
    {e : Disturbance} (ok : Elsewhere start len m e) :
    (disturb e m).cached.Shared cacheLine (start + i) w := by
  cases e with
  | evict e => exact h.evict e
  | prefetch l => exact h.fetch l
  | npuDrop l => exact h
  | store a v => exact h.store_of_ne (outside_ne ok inside) v

/-- Accesses of the functions that edit a blob, other than a store to a word. -/
def Spares (a : ℕ) : Access → Prop
  | .load _ => True
  | .store b _ => a ≠ b
  | .clean _ => True
  | _ => False

theorem holds_exec {a : ℕ} (h : m.cached.Holds cacheLine a w) {op : Access} (spares : Spares a op) :
    (exec npuLine op m).cached.Holds cacheLine a w := by
  cases op with
  | load b => exact h.fetch _
  | store b f => exact h.store_of_ne spares _
  | clean l => exact h.cleanLine l
  | _ => exact spares.elim

theorem holds_run (h : m.cached.Holds cacheLine (start + i) w) (inside : i < len)
    (run : Runs npuLine start len ops m m') (spares : ∀ op ∈ ops, Spares (start + i) op) :
    m'.cached.Holds cacheLine (start + i) w :=
  run.preserves (P := fun m => m.cached.Holds cacheLine (start + i) w)
    (fun _ _ ok h => holds_disturb h inside ok) (fun op hop _ h => holds_exec h (spares op hop)) h

/-! ## The blob that the processor reads -/

/-- The processor reads the blob. -/
def Held (start : ℕ) (blob : List ECInstr) (m : Caches) : Prop :=
  ∀ i w, blob[i]? = some w → m.cached.Holds cacheLine (start + i) w

section Held

variable {blob : List ECInstr}

theorem inside_of_getElem? (here : blob[i]? = some w) : i < blob.length :=
  (List.getElem?_eq_some_iff.mp here).1

/-- A word is loaded, and stored again with an edit. -/
theorem Held.edit (held : Held start blob m) {k : ℕ} {f : ECInstr → ECInstr}
    (inside : k < blob.length)
    (run : Runs npuLine start blob.length [.load (start + k), .store (start + k) f] m m') :
    Held start (blob.modify k f) m' := by
  obtain ⟨m₁, before, run⟩ := run.uncons
  obtain ⟨m₂, between, run⟩ := run.uncons
  have here : blob[k]? = some blob[k] := List.getElem?_eq_getElem inside
  have loaded : (exec npuLine (.load (start + k)) m₁).reg = blob[k] :=
    (holds_run (held k _ here) inside before fun _ h => nomatch h).view_eq
  have reg : m₂.reg = blob[k] := by
    refine between.preserves (P := fun m => m.reg = blob[k]) (fun m e _ h => ?_)
      (fun _ h => nomatch h) loaded
    cases e <;> exact h
  intro i w hw
  have hi : i < blob.length := by
    rw [← List.length_modify]
    exact inside_of_getElem? hw
  refine holds_run ?_ hi run fun _ h => nomatch h
  by_cases same : k = i
  · subst same
    rw [List.getElem?_modify_eq, here] at hw
    cases hw
    rw [← reg]
    exact Cached.holds_store_self _ _ _
  · rw [List.getElem?_modify_ne _ _ same] at hw
    have read : m₁.cached.Holds cacheLine (start + i) w :=
      holds_run (held i w hw) hi before fun _ h => nomatch h
    have loads : Spares (start + i) (.load (start + k)) := trivial
    have spared : m₂.cached.Holds cacheLine (start + i) w :=
      holds_run (holds_exec read loads) hi between fun _ h => nomatch h
    exact holds_exec spared (show start + i ≠ start + k by omega)

/-- Words are stored one after the other. -/
theorem held_of_stores
    (run : Runs npuLine start blob.length
      (blob.mapIdx fun i w => .store (start + i) fun _ => w) m m') : Held start blob m' := by
  intro i w hw
  have hi := inside_of_getElem? hw
  have member : Access.store (start + i) (fun _ => w) ∈
      blob.mapIdx fun i w => .store (start + i) fun _ => w := by
    refine List.mem_of_getElem? (i := i) ?_
    rw [List.getElem?_mapIdx, hw]
    rfl
  refine run.establishes (J := fun _ => True)
    (P := fun m => m.cached.Holds cacheLine (start + i) w) member trivial
    (fun _ _ _ _ => trivial) (fun _ _ _ _ => trivial)
    (fun m _ => Cached.holds_store_self m.cached _ _) (fun _ _ ok h => holds_disturb h hi ok) ?_
  intro op hop m h
  obtain ⟨k, hk, rfl⟩ := List.getElem_of_mem hop
  rw [List.getElem_mapIdx]
  by_cases same : i = k
  · subst same
    rw [List.length_mapIdx] at hk
    rw [List.getElem?_eq_getElem hk] at hw
    cases hw
    exact Cached.holds_store_self m.cached _ _
  · exact holds_exec h (show start + i ≠ start + k by omega)

end Held

/-! ## The cache of the NPU -/

/-- The cache of the NPU has no line of the blob. -/
def Unfetched (npuLine : ℕ → ℕ) (start len : ℕ) (m : Caches) : Prop :=
  ∀ i < len, ¬ m.npuPresent (npuLine (start + i)) = true

/-- A line that is left after one was dropped was there before. -/
theorem present_of_update {l l' : ℕ} {present : ℕ → Bool}
    (h : Function.update present l' false l = true) : present l = true := by
  rw [Function.update_apply] at h
  split at h
  · cases h
  · exact h

theorem absent_disturb {l : ℕ} (h : ¬ m.npuPresent l = true) (e : Disturbance) :
    ¬ (disturb e m).npuPresent l = true := by
  cases e with
  | npuDrop l' => exact fun present => h (present_of_update present)
  | _ => exact h

theorem unfetched_of_invalidate (run : Runs npuLine start len
      (LL_ATON_Cache_NPU_Clean_Invalidate_Range npuLine start len) m m') :
    Unfetched npuLine start len m' := by
  intro i hi
  refine run.establishes (J := fun _ => True)
    (P := fun m => ¬ m.npuPresent (npuLine (start + i)) = true)
    (List.mem_map.mpr ⟨i, List.mem_range.mpr hi, rfl⟩) trivial (fun _ _ _ _ => trivial)
    (fun _ _ _ _ => trivial) ?_ (fun _ e _ h => absent_disturb h e) ?_
  · intro m _
    have dropped : (exec npuLine (.npuInvalidate (npuLine (start + i))) m).npuPresent
        (npuLine (start + i)) = false := Function.update_self _ _ _
    exact Bool.eq_false_iff.mp dropped
  · intro op hop m h
    obtain ⟨k, -, rfl⟩ := List.mem_map.mp hop
    exact fun present => h (present_of_update present)

/-- The NPU is idle while the processor edits the blob. -/
def Editing : Access → Prop
  | .load _ => True
  | .store _ _ => True
  | .clean _ => True
  | _ => False

theorem Unfetched.run (h : Unfetched npuLine start len m) (run : Runs npuLine start len ops m m')
    (editing : ∀ op ∈ ops, Editing op) : Unfetched npuLine start len m' := by
  intro i hi
  refine run.preserves (P := fun m => ¬ m.npuPresent (npuLine (start + i)) = true)
    (fun _ e _ h => absent_disturb h e) ?_ (h i hi)
  intro op hop m h
  have edits := editing op hop
  cases op with
  | load a => exact h
  | store a f => exact h
  | clean l => exact h
  | _ => exact edits.elim

/-! ## The blob that the epoch controller reads -/

/-- The processor and the epoch controller read the same word. -/
structure AgreedAt (npuLine : ℕ → ℕ) (m : Caches) (a : ℕ) (w : ECInstr) : Prop where
  shared : m.cached.Shared cacheLine a w
  fetched : m.npuPresent (npuLine a) = true → m.npuData a = w

theorem AgreedAt.ecReads {a : ℕ} (h : AgreedAt npuLine m a w) : m.ecReads npuLine a = w := by
  rw [Caches.ecReads]
  split
  · next present => exact h.fetched present
  · exact h.shared.mem

theorem AgreedAt.disturb (h : AgreedAt npuLine m (start + i) w) (inside : i < len)
    {e : Disturbance} (ok : Elsewhere start len m e) :
    AgreedAt npuLine (disturb e m) (start + i) w := by
  refine ⟨shared_disturb h.shared inside ok, ?_⟩
  cases e with
  | npuDrop l => exact fun present => h.fetched (present_of_update present)
  | _ => exact h.fetched

/-- Foreign accesses leave both alone. The NPU fetches what memory has. -/
theorem AgreedAt.exec (h : AgreedAt npuLine m (start + i) w) (inside : i < len) {op : Access}
    (foreign : Foreign npuLine start len op) :
    AgreedAt npuLine (exec npuLine op m) (start + i) w := by
  cases op with
  | load a => exact ⟨h.shared.fetch _, h.fetched⟩
  | store a f => exact ⟨h.shared.store_of_ne (outside_ne foreign inside) _, h.fetched⟩
  | clean l => exact ⟨h.shared.cleanLine l, h.fetched⟩
  | invalidate l => exact ⟨h.shared.invalidateLine l, h.fetched⟩
  | npuInvalidate l => exact ⟨h.shared, fun present => h.fetched (present_of_update present)⟩
  | npuFetch l =>
      rw [Caches.exec]
      split
      · exact h
      · refine ⟨h.shared, fun present => ?_⟩
        by_cases same : npuLine (start + i) = l
        · exact (if_pos same).trans h.shared.mem
        · have before : m.npuPresent (npuLine (start + i)) = true := by
            rw [← present]
            exact (Function.update_of_ne same _ _).symm
          exact (if_neg same).trans (h.fetched before)
  | npuStore a v =>
      have other : start + i ≠ a := fun same => foreign i inside (by rw [same])
      exact ⟨h.shared.directStore_of_ne other v, fun present =>
        (Function.update_of_ne other _ _).trans (h.fetched present)⟩

/-- The processor and the epoch controller read the blob. -/
def Agreed (npuLine : ℕ → ℕ) (start : ℕ) (blob : List ECInstr) (m : Caches) : Prop :=
  ∀ i w, blob[i]? = some w → AgreedAt npuLine m (start + i) w

section Agreed

variable {blob : List ECInstr}

theorem Agreed.held (h : Agreed npuLine start blob m) : Held start blob m :=
  fun i w hw => (h i w hw).shared.holds

theorem Agreed.run (h : Agreed npuLine start blob m)
    (run : Runs npuLine start blob.length ops m m')
    (foreign : ∀ op ∈ ops, Foreign npuLine start blob.length op) :
    Agreed npuLine start blob m' := fun i w hw =>
  run.preserves (P := fun m => AgreedAt npuLine m (start + i) w)
    (fun _ _ ok h => h.disturb (inside_of_getElem? hw) ok)
    (fun op hop _ h => h.exec (inside_of_getElem? hw) (foreign op hop)) (h i w hw)

/-- Cleaning the lines of the blob hands it over. -/
theorem Held.agreed_of_clean (held : Held start blob m)
    (unfetched : Unfetched npuLine start blob.length m)
    (run : Runs npuLine start blob.length (LL_ATON_Cache_MCU_Clean_Range start blob.length) m m') :
    Agreed npuLine start blob m' := by
  intro i w hw
  have hi := inside_of_getElem? hw
  have absent : ¬ m'.npuPresent (npuLine (start + i)) = true := by
    refine unfetched.run run ?_ i hi
    intro op hop
    obtain ⟨l, -, rfl⟩ := List.mem_map.mp hop
    trivial
  have line : cacheLine (start + i) ∈ linesOf (4 * start) (4 * blob.length) := by
    rw [mem_linesOf]
    simp only [cacheLine, CACHE_LINE]
    omega
  have shared : m'.cached.Shared cacheLine (start + i) w := by
    refine run.establishes (J := fun m => m.cached.Holds cacheLine (start + i) w)
      (P := fun m => m.cached.Shared cacheLine (start + i) w)
      (List.mem_map.mpr ⟨_, line, rfl⟩) (held i w hw) (fun _ _ ok h => holds_disturb h hi ok) ?_
      (fun m h => h.shared_cleanLine) ?_ ?_
    · intro op hop m h
      obtain ⟨l, -, rfl⟩ := List.mem_map.mp hop
      exact h.cleanLine l
    · exact fun _ _ ok h => shared_disturb h hi ok
    · intro op hop m h
      obtain ⟨l, -, rfl⟩ := List.mem_map.mp hop
      exact h.cleanLine l
  exact ⟨shared, fun present => absurd present absent⟩

end Agreed
end Caches
end PeopleDetection.EpochController
