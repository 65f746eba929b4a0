import PeopleDetection.EpochController.Caches
import PeopleDetection.EpochController.Network

/-!
# The blob that the epoch controller runs

A program calls the functions of the network among accesses of its own and of the NPU, while
the caches work and other threads run. The epoch controller always reads the blob that the
loader has computed: the last relocation, and all of it.
-/

namespace PeopleDetection.EpochController

open Library Caches

/-! ## The accesses of the loader -/

section Accesses

variable (mem : Bytes) (start : ℕ)

/-- The accesses of `editListed` to the blob. -/
def listedAccesses (f : ECInstr → ECInstr) (ptr i : ℕ) : Option (List Access) :=
  (entryAt mem (ptr + 4 * i)).map fun offset =>
    [.load (start + (offset + 2).toNat), .store (start + (offset + 2).toNat) f]

/-- The accesses of `relocEntry`. -/
def relocEntryAccesses (ptr : ℕ) (idx : BitVec 32) (base prev_base : ECAddr) :
    Option (List Access) := do
  let num ← entryAt mem (column 3 ptr idx 2)
  let offset ← entryAt mem (column 3 ptr idx 3)
  if offset % 4 ≠ 0 then some []
  else
    ((List.range num.toNat).mapM
      (listedAccesses mem start (· + (base - prev_base)) (ptr + offset.toNat))).map List.flatten

/-- The accesses of `ec_reloc`. -/
def ec_relocAccesses (reloc_table_ptr : Option ℕ) (idx : BitVec 32) (base prev_base : ECAddr) :
    Option (List Access) :=
  match reloc_table_ptr with
  | none => some []
  | some ptr =>
      if base = prev_base then some []
      else do
        let size ← entryAt mem ptr
        if idx < size then relocEntryAccesses mem start ptr idx base prev_base else some []

end Accesses

section Loader

variable {mem : Bytes} {start ptr : ℕ} {f : ECInstr → ECInstr} {is : List ℕ}
variable {opss : List (List Access)} {ops : List Access} {blob blob' : List ECInstr}
variable {npuLine : ℕ → ℕ} {m m' : Caches}

theorem Caches.Held.disturbed (held : Held start blob m)
    (run : Runs npuLine start blob.length [] m m') : Held start blob m' :=
  fun i w hw => holds_run (held i w hw) (inside_of_getElem? hw) run fun _ h => nomatch h

/-- The loop over the words of an entry, word by word. -/
theorem Caches.Held.listed (held : Held start blob m)
    (effect : is.foldlM (editListed mem f ptr) blob = some blob')
    (accesses : is.mapM (listedAccesses mem start f ptr) = some opss)
    (run : Runs npuLine start blob.length opss.flatten m m') :
    Held start blob' m' ∧ blob'.length = blob.length := by
  induction is generalizing blob m opss with
  | nil =>
      cases effect
      cases accesses
      exact ⟨held.disturbed run, rfl⟩
  | cons i is ih =>
      simp only [List.foldlM_cons, editListed, Option.bind_eq_bind,
        Option.bind_eq_some_iff] at effect
      obtain ⟨blob₁, ⟨offset, entry, edit⟩, rest⟩ := effect
      obtain ⟨inside, same⟩ := Option.ite_none_right_eq_some.mp edit
      cases same
      simp only [List.mapM_cons, listedAccesses, entry, Option.map_some, Option.bind_eq_bind,
        Option.bind_some, Option.bind_eq_some_iff, Option.pure_def] at accesses
      obtain ⟨opss₁, later, same⟩ := accesses
      cases same
      rw [List.flatten_cons] at run
      obtain ⟨m₁, first, run⟩ := run.split
      obtain ⟨held', length⟩ := ih (held.edit inside first) rest later (by rwa [List.length_modify])
      exact ⟨held', by rw [length, List.length_modify]⟩

/-- Where the loop succeeds, it makes these accesses. -/
theorem exists_listedAccesses (effect : is.foldlM (editListed mem f ptr) blob = some blob') :
    ∃ opss, is.mapM (listedAccesses mem start f ptr) = some opss := by
  induction is generalizing blob with
  | nil => exact ⟨[], rfl⟩
  | cons i is ih =>
      simp only [List.foldlM_cons, editListed, Option.bind_eq_bind,
        Option.bind_eq_some_iff] at effect
      obtain ⟨blob₁, ⟨offset, entry, -⟩, rest⟩ := effect
      obtain ⟨opss, later⟩ := ih rest
      simp only [List.mapM_cons, listedAccesses, entry, Option.map_some] at later ⊢
      rw [later]
      exact ⟨_, rfl⟩

theorem editing_listed (accesses : is.mapM (listedAccesses mem start f ptr) = some opss) :
    ∀ op ∈ opss.flatten, Editing op := by
  induction is generalizing opss with
  | nil =>
      cases accesses
      exact fun _ h => nomatch h
  | cons i is ih =>
      simp only [List.mapM_cons, listedAccesses, Option.bind_eq_bind, Option.bind_eq_some_iff,
        Option.map_eq_some_iff, Option.pure_def] at accesses
      obtain ⟨_, ⟨offset, -, rfl⟩, opss₁, later, same⟩ := accesses
      cases same
      intro op hop
      rw [List.flatten_cons, List.mem_append] at hop
      cases hop with
      | inl here =>
          simp only [List.mem_cons, List.not_mem_nil, or_false] at here
          rcases here with rfl | rfl <;> trivial
      | inr there => exact ih later op there

variable {reloc_table_ptr : Option ℕ} {idx : BitVec 32} {ok : Bool}
variable {base prev_base prev_base' : ECAddr}

/-- A relocation is a loop over words, which has none where there is nothing to do. -/
theorem ec_reloc_loop (start : ℕ)
    (effect : ec_reloc mem reloc_table_ptr blob idx base prev_base = some (ok, blob', prev_base')) :
    ∃ (is : List ℕ) (f : ECInstr → ECInstr) (ptr : ℕ),
      is.foldlM (editListed mem f ptr) blob = some blob' ∧
      ec_relocAccesses mem start reloc_table_ptr idx base prev_base =
        (is.mapM (listedAccesses mem start f ptr)).map List.flatten := by
  cases reloc_table_ptr with
  | none =>
      cases effect
      exact ⟨[], id, 0, rfl, rfl⟩
  | some ptr =>
      rw [ec_reloc] at effect
      rw [ec_relocAccesses]
      by_cases same : base = prev_base
      · rw [if_pos same] at effect ⊢
        cases effect
        exact ⟨[], id, 0, rfl, rfl⟩
      · rw [if_neg same] at effect ⊢
        obtain ⟨size, first, effect⟩ := Option.bind_eq_some_iff.mp effect
        simp only [first, Option.bind_eq_bind, Option.bind_some]
        by_cases inside : idx < size
        · rw [if_pos inside] at effect ⊢
          obtain ⟨num, number, effect⟩ := Option.bind_eq_some_iff.mp effect
          obtain ⟨offset, listed, effect⟩ := Option.bind_eq_some_iff.mp effect
          simp only [relocEntryAccesses, number, listed, Option.bind_eq_bind, Option.bind_some]
          by_cases ragged : offset % 4 ≠ 0
          · rw [if_pos ragged] at effect ⊢
            cases effect
            exact ⟨[], id, 0, rfl, rfl⟩
          · rw [if_neg ragged] at effect ⊢
            obtain ⟨blob₁, loop, result⟩ := Option.bind_eq_some_iff.mp effect
            cases result
            exact ⟨_, _, _, loop, rfl⟩
        · rw [if_neg inside] at effect ⊢
          cases effect
          exact ⟨[], id, 0, rfl, rfl⟩

/-- Through the cache, the loader computes what it computes. -/
theorem Caches.Held.ec_reloc (held : Held start blob m)
    (effect : ec_reloc mem reloc_table_ptr blob idx base prev_base = some (ok, blob', prev_base'))
    (accesses : ec_relocAccesses mem start reloc_table_ptr idx base prev_base = some ops)
    (run : Runs npuLine start blob.length ops m m') : Held start blob' m' := by
  obtain ⟨is, f, ptr, loop, all⟩ := ec_reloc_loop start effect
  rw [all] at accesses
  obtain ⟨opss, listed, rfl⟩ := Option.map_eq_some_iff.mp accesses
  exact (held.listed loop listed run).1

theorem exists_ec_relocAccesses (start : ℕ)
    (effect : ec_reloc mem reloc_table_ptr blob idx base prev_base = some (ok, blob', prev_base')) :
    ∃ ops, ec_relocAccesses mem start reloc_table_ptr idx base prev_base = some ops ∧
      ∀ op ∈ ops, Editing op := by
  obtain ⟨is, f, ptr, loop, all⟩ := ec_reloc_loop start effect
  obtain ⟨opss, listed⟩ := exists_listedAccesses loop
  exact ⟨opss.flatten, by rw [all, listed, Option.map_some], editing_listed listed⟩

end Loader

/-! ## The accesses of the functions of the network -/

/-- The accesses of a call to the blob and to the caches, from a state to another. -/
def callAccesses (npuLine : ℕ → ℕ) (code : Instrs) (start : ℕ) (s s' : EcNetwork) :
    EcCall → Option (List Access)
  | .networkInit =>
      some (LL_ATON_Cache_NPU_Clean_Invalidate_Range npuLine start 11602 ++
        ((s'.ec_blob_Default_1.words.mapIdx fun i w => .store (start + i) fun _ => w) ++
          LL_ATON_Cache_MCU_Clean_Range start 11602))
  | .inferenceInit =>
      (ec_relocAccesses (ec_blob_Default_1_binary code) start
        (some ec_blob_Default_1_reloc_table_ptr) ec_blob_Default_1_user_io_input_0_RELOC_IDX
        s.user_io_input_0 s.prev_base_addr).map fun ops =>
          LL_ATON_Cache_NPU_Clean_Invalidate_Range npuLine start 11602 ++
            (ops ++ LL_ATON_Cache_MCU_Clean_Range start 11602)
  | .setUserInputBuffer _ _ _ => some []

/-- Calls of the functions among other accesses, while the caches work and other threads run. -/
inductive Traffic (npuLine : ℕ → ℕ) (code : Instrs) (start : ℕ) :
    List EcCall → EcNetwork → Caches → EcNetwork → Caches → Prop where
  | done (s : EcNetwork) (m : Caches) : Traffic npuLine code start [] s m s m
  | other {cs : List EcCall} {s t : EcNetwork} {m m' n : Caches} {ops : List Access}
      (foreign : ∀ op ∈ ops, Foreign npuLine start 11602 op)
      (run : Runs npuLine start 11602 ops m m')
      (later : Traffic npuLine code start cs s m' t n) : Traffic npuLine code start cs s m t n
  | call {c : EcCall} {cs : List EcCall} {s s' t : EcNetwork} {m m' n : Caches}
      {ops : List Access} {ok : Bool} (effect : s.call code c = some (ok, s'))
      (accesses : callAccesses npuLine code start s s' c = some ops)
      (run : Runs npuLine start 11602 ops m m')
      (later : Traffic npuLine code start cs s' m' t n) :
      Traffic npuLine code start (c :: cs) s m t n

/-! ## What the epoch controller reads -/

section Traffic

variable {npuLine : ℕ → ℕ} {code : Instrs} {start address : ℕ} {cs : List EcCall} {b : Buffers}
variable {s s' t : EcNetwork} {m m' n : Caches} {ops : List Access}

/-- What the processor has edited between the two operations on the caches is handed over. -/
theorem agreed_of_edit {blob : List ECInstr} (length : blob.length = 11602)
    (editing : ∀ op ∈ ops, Editing op)
    (run : Runs npuLine start 11602 (LL_ATON_Cache_NPU_Clean_Invalidate_Range npuLine start 11602 ++
      (ops ++ LL_ATON_Cache_MCU_Clean_Range start 11602)) m m')
    (edit : ∀ m₁ m₂, Runs npuLine start 11602
        (LL_ATON_Cache_NPU_Clean_Invalidate_Range npuLine start 11602) m m₁ →
      Runs npuLine start 11602 ops m₁ m₂ → Held start blob m₂) : Agreed npuLine start blob m' := by
  obtain ⟨m₁, invalidated, run⟩ := run.split
  obtain ⟨m₂, edited, cleaned⟩ := run.split
  have unfetched := (unfetched_of_invalidate invalidated).run edited editing
  have held := edit m₁ m₂ invalidated edited
  rw [← length] at unfetched cleaned
  exact held.agreed_of_clean unfetched cleaned

/-- After initialization, whatever the caches had before. -/
theorem agreed_of_networkInit {blob : List ECInstr} (length : blob.length = 11602)
    (words : s'.ec_blob_Default_1.words = blob)
    (accesses : callAccesses npuLine code start s s' .networkInit = some ops)
    (run : Runs npuLine start 11602 ops m m') : Agreed npuLine start blob m' := by
  rw [callAccesses, words] at accesses
  obtain rfl := Option.some.inj accesses
  refine agreed_of_edit length ?_ run fun m₁ m₂ _ stored => ?_
  · intro op hop
    obtain ⟨k, hk, rfl⟩ := List.getElem_of_mem hop
    rw [List.getElem_mapIdx]
    trivial
  · rw [← length] at stored
    exact held_of_stores stored

section Calls

variable (agreed : Agreed npuLine start (relocatedBlob code b.relocated) m)

include agreed

/-- Accesses that leave the blob alone. -/
theorem agreed_of_foreign (run : Runs npuLine start 11602 ops m m')
    (foreign : ∀ op ∈ ops, Foreign npuLine start 11602 op) :
    Agreed npuLine start (relocatedBlob code b.relocated) m' := by
  rw [← length_relocatedBlob code b.relocated] at run foreign
  exact agreed.run run foreign

/-- Each call hands over the blob that it computes. -/
theorem agreed_of_call {c : EcCall}
    (accesses : callAccesses npuLine code start (b.network code address)
      ((b.call c).2.network code address) c = some ops)
    (run : Runs npuLine start 11602 ops m m') :
    Agreed npuLine start (relocatedBlob code (b.call c).2.relocated) m' := by
  cases c with
  | networkInit => exact agreed_of_networkInit (length_relocatedBlob code _) rfl accesses run
  | inferenceInit =>
      obtain ⟨edits, made, rfl⟩ := Option.map_eq_some_iff.mp accesses
      have effect := ec_reloc_Default_1 code b.relocated b.input
      obtain ⟨_, same, editing⟩ := exists_ec_relocAccesses start effect
      obtain rfl := Option.some.inj (same.symm.trans made)
      refine agreed_of_edit (length_relocatedBlob code _) editing run fun m₁ m₂ before edited => ?_
      have held := (agreed_of_foreign agreed before fun op hop => by
        obtain ⟨_, -, rfl⟩ := List.mem_map.mp hop
        trivial).held
      rw [← length_relocatedBlob code b.relocated] at edited
      exact held.ec_reloc effect made edited
  | setUserInputBuffer num buffer size =>
      rw [callAccesses] at accesses
      obtain rfl := Option.some.inj accesses
      have same : (b.call (.setUserInputBuffer num buffer size)).2.relocated = b.relocated := by
        rw [Buffers.call]
        split <;> rfl
      rw [same]
      exact agreed_of_foreign agreed run fun _ hop => absurd hop List.not_mem_nil

/-- So does a whole traffic. -/
theorem agreed_of_traffic (aligned : address % 8 = 0)
    (traffic : Traffic npuLine code start cs (b.network code address) m t n) :
    t = (b.calls cs).2.network code address ∧
      Agreed npuLine start (relocatedBlob code (b.calls cs).2.relocated) n := by
  generalize origin : b.network code address = s at traffic
  induction traffic generalizing b with
  | done s m => exact ⟨origin.symm, agreed⟩
  | other foreign run _ ih => exact ih (agreed_of_foreign agreed run foreign) origin
  | @call c cs _ _ _ _ _ _ _ _ effect accesses run _ ih =>
      subst origin
      rw [call_network code aligned] at effect
      cases effect
      exact ih (agreed_of_call agreed accesses run) rfl

end Calls

/-- Other accesses may come before the first call. -/
theorem Traffic.first {c : EcCall} (traffic : Traffic npuLine code start (c :: cs) s m t n) :
    ∃ s' m₁ m₂ ok ops, s.call code c = some (ok, s') ∧
      callAccesses npuLine code start s s' c = some ops ∧
      Runs npuLine start 11602 ops m₁ m₂ ∧ Traffic npuLine code start cs s' m₂ t n := by
  generalize all : c :: cs = calls at traffic
  induction traffic with
  | done s m => cases all
  | other _ _ _ ih => exact ih all
  | call effect accesses run later _ =>
      cases all
      exact ⟨_, _, _, _, _, effect, accesses, run, later⟩

/-- Once the network was initialized, with anything in memory and in the caches, the epoch
controller and the processor read the blob that the calls so far have left: the one relocated
to the buffer of the last inference. This holds between any two accesses, whatever the caches
evict or fetch, and whatever other threads store elsewhere. -/
theorem ecReads_relocated (aligned : address % 8 = 0) {words : List (BitVec 32)}
    (room : words.length = 11602) {base input : ECAddr}
    (traffic : Traffic npuLine code (address / 4) (.networkInit :: cs)
      ⟨⟨address, words⟩, base, input⟩ m t n) :
    let blob := relocatedBlob code (Buffers.calls cs ⟨0, input⟩).2.relocated
    t.ec_blob_Default_1.words = blob ∧ ∀ i w, blob[i]? = some w →
      n.ecReads npuLine (address / 4 + i) = w ∧
        n.cached.view cacheLine (address / 4 + i) = w := by
  obtain ⟨s', m₁, m₂, ok, ops, effect, accesses, run, later⟩ := traffic.first
  have init := network_init_eq code aligned room base input
  rw [EcNetwork.call, init] at effect
  cases effect
  have handed := agreed_of_networkInit (length_relocatedBlob code 0) rfl accesses run
  obtain ⟨same, agreed⟩ := agreed_of_traffic handed aligned later
  rw [same]
  exact ⟨rfl, fun i w hw => ⟨(agreed i w hw).ecReads, (agreed i w hw).shared.holds.view_eq⟩⟩

/-- There is such a traffic, with the NPU fetching a line after each call. -/
theorem exists_traffic (aligned : address % 8 = 0) (l : ℕ) (cs : List EcCall) (b : Buffers)
    (m : Caches) : ∃ t n, Traffic npuLine code start cs (b.network code address) m t n := by
  induction cs generalizing b m with
  | nil => exact ⟨_, _, .done _ _⟩
  | cons c cs ih =>
      have effect := call_network code aligned c b
      obtain ⟨ops, accesses⟩ : ∃ ops, callAccesses npuLine code start (b.network code address)
          ((b.call c).2.network code address) c = some ops := by
        cases c with
        | networkInit => exact ⟨_, rfl⟩
        | inferenceInit =>
            obtain ⟨edits, made, -⟩ :=
              exists_ec_relocAccesses start (ec_reloc_Default_1 code b.relocated b.input)
            exact ⟨_, Option.map_eq_some_iff.mpr ⟨edits, made, rfl⟩⟩
        | setUserInputBuffer num buffer size => exact ⟨_, rfl⟩
      obtain ⟨t, n, later⟩ := ih (b.call c).2
        (exec npuLine (.npuFetch l) (ops.foldl (fun m op => exec npuLine op m) m))
      have fetch : ∀ op ∈ [Access.npuFetch l], Foreign npuLine start 11602 op := by
        intro op hop
        obtain rfl := List.mem_singleton.mp hop
        trivial
      exact ⟨t, n, .call effect accesses (Run.undisturbed ops m)
        (.other fetch (.step (.done _)) later)⟩

/-- Caches that are full of other words. -/
def fullCaches : Caches := ⟨⟨fun _ => 5, fun _ => 6, fun _ => .dirty⟩, 0, fun _ => true, fun _ => 7⟩

/-- The NPU fetches a line of the blob after each call. -/
theorem ecReads_relocated_sample :
    ∃ t n, Traffic (· / 16) sampleInstrs (64 / 4)
        [.networkInit, .inferenceInit, .setUserInputBuffer 0 0x34300000 150528, .inferenceInit]
        ⟨⟨64, List.replicate 11602 9⟩, 1, 2⟩ fullCaches t n ∧
      t.ec_blob_Default_1.words = relocatedBlob sampleInstrs 0x34300000 ∧
      ∀ i w, (relocatedBlob sampleInstrs 0x34300000)[i]? = some w →
        n.ecReads (· / 16) (64 / 4 + i) = w ∧ n.cached.view cacheLine (64 / 4 + i) = w := by
  have effect : EcNetwork.call sampleInstrs .networkInit ⟨⟨64, List.replicate 11602 9⟩, 1, 2⟩ =
      some (true, Buffers.network sampleInstrs 64 ⟨0, 2⟩) :=
    network_init_eq sampleInstrs (by decide) List.length_replicate 1 2
  have others (m : Caches) : ∃ t n, Traffic (· / 16) sampleInstrs (64 / 4)
      [.inferenceInit, .setUserInputBuffer 0 0x34300000 150528, .inferenceInit]
      (Buffers.network sampleInstrs 64 ⟨0, 2⟩) m t n :=
    exists_traffic (by decide) 2 _ _ m
  obtain ⟨t, n, later⟩ := others _
  have traffic := Traffic.call effect rfl (Run.undisturbed _ fullCaches) later
  have aligned : 64 % 8 = 0 := by decide
  have read := ecReads_relocated aligned List.length_replicate traffic
  have last : (Buffers.calls [.inferenceInit, .setUserInputBuffer 0 0x34300000 150528,
      .inferenceInit] ⟨0, 2⟩).2.relocated = 0x34300000 := by decide
  rw [last] at read
  exact ⟨t, n, traffic, read⟩

end Traffic
end PeopleDetection.EpochController
