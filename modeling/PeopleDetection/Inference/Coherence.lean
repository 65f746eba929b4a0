import PeopleDetection.Inference.Program

/-!
# Undisturbed inference

The output tensor that post-processing decodes is the one the network computes from the
image, as long as no record that an earlier post-processing left dirty is written back
while the NPU works. Each phase of an inference has its lemma; together they hold from any
state in which only lines of the records are dirty.
-/

namespace PeopleDetection

open Library Mcu

variable {V : Type} {s s' : Mcu V}

/-! ## Dirty lines -/

/-- Of the pool, only lines of the records are dirty. -/
def DirtyRecordsOnly (s : Mcu V) : Prop :=
  ∀ l, RECORDS_END / CACHE_LINE < l → s.cached.status (.pool l) ≠ .dirty

/-- An operation that stores into the records, if into the pool at all. -/
def SparesPool : Op V → Prop
  | .store (.pool n) _ => n < RECORDS_END
  | _ => True

theorem DirtyRecordsOnly.evict (h : DirtyRecordsOnly s) (e : Eviction Line) :
    DirtyRecordsOnly (s.evict e) :=
  fun l hl => Cached.not_dirty_evict (h l hl) e

theorem DirtyRecordsOnly.exec (h : DirtyRecordsOnly s) {op : Op V} (spares : SparesPool op) :
    DirtyRecordsOnly (s.exec op) := by
  intro l hl
  cases op with
  | load a => exact Cached.not_dirty_fetch (h l hl) _
  | store a f =>
      rw [Mcu.exec, Cached.status_store, if_neg]
      · exact h l hl
      · cases a with
        | image n => exact fun same => nomatch same
        | pool n =>
            have bound : n < RECORDS_END := spares
            simp only [lineOf, RECORDS_END, CACHE_LINE, Line.pool.injEq] at bound hl ⊢
            omega
  | clean l' => exact Cached.not_dirty_cleanLine (h l hl) l'
  | invalidate l' => exact Cached.not_dirty_invalidateLine (h l hl) l'
  | npu st => exact h l hl

/-- A program whose operations spare the pool leaves only records dirty. -/
theorem DirtyRecordsOnly.run {allowed : Mcu V → Eviction Line → Prop} {ops : List (Op V)}
    (h : DirtyRecordsOnly s) (run : Mcu.Runs allowed ops s s')
    (spares : ∀ op ∈ ops, SparesPool op) : DirtyRecordsOnly s' :=
  run.preserves (fun _ e _ h => h.evict e) (fun op hop _ h => h.exec (spares op hop)) h

/-! ## Values -/

section Holds

variable {a : Addr} {v : V}

/-- The processor keeps reading a value through its own loads, through stores elsewhere
and through maintenance of its line other than an invalidation. -/
def Keeps (a : Addr) : Op V → Prop
  | .load _ => True
  | .store b _ => a ≠ b
  | .clean _ => True
  | .invalidate l => lineOf a ≠ l
  | .npu _ => False

theorem holds_exec (h : s.cached.Holds lineOf a v) {op : Op V} (keeps : Keeps a op) :
    (s.exec op).cached.Holds lineOf a v := by
  cases op with
  | load b => exact h.fetch _
  | store b f => exact h.store_of_ne keeps _
  | clean l => exact h.cleanLine l
  | invalidate l => exact h.invalidateLine keeps
  | npu st => exact keeps.elim

theorem holds_run {ops : List (Op V)} (h : s.cached.Holds lineOf a v)
    (run : Mcu.Runs Mcu.Any ops s s') (keeps : ∀ op ∈ ops, Keeps a op) :
    s'.cached.Holds lineOf a v :=
  run.preserves (P := fun s => s.cached.Holds lineOf a v) (fun _ e _ h => h.evict e)
    (fun op hop _ h => holds_exec h (keeps op hop)) h

end Holds

theorem mem_linesOf {start size l : Nat} :
    l ∈ linesOf start size ↔ start / CACHE_LINE ≤ l ∧
      l < (start + size + (CACHE_LINE - 1)) / CACHE_LINE := by
  rw [linesOf, List.mem_range'_1]
  simp only [CACHE_LINE]
  omega

/-! ## Up to the NPU epochs -/

/-- The state in which the NPU starts: the image is in memory, and the lines of the
quantized output are not in the cache. -/
structure Prepared (image : Nat → V) (s : Mcu V) : Prop where
  image : ∀ n < nn_in_len, s.cached.Stored lineOf (.image n) (image n)
  absent : ∀ l, QUANTIZED / CACHE_LINE ≤ l → l < 876 → s.cached.status (.pool l) = .absent
  records : DirtyRecordsOnly s

theorem holds_fs_read {image : Nat → V} (run : Mcu.Runs Mcu.Any (fs_read image) s s') {n : Nat}
    (inside : n < nn_in_len) : s'.cached.Holds lineOf (.image n) (image n) := by
  refine run.establishes (J := fun _ => True)
    (P := fun s => s.cached.Holds lineOf (.image n) (image n))
    (List.mem_map.mpr ⟨n, List.mem_range.mpr inside, rfl⟩) trivial (fun _ _ _ _ => trivial)
    (fun _ _ _ _ => trivial) (fun s _ => Cached.holds_store_self _ _ _)
    (fun _ e _ h => h.evict e) ?_
  intro op hop s h
  obtain ⟨k, -, rfl⟩ := List.mem_map.mp hop
  by_cases same : n = k
  · subst same
    exact Cached.holds_store_self _ _ _
  · exact holds_exec h fun eq => same (Addr.image.inj eq)

theorem not_dirty_flushImage (run : Mcu.Runs Mcu.Any flushImage s s') {n : Nat}
    (inside : n < nn_in_len) : s'.cached.status (lineOf (.image n)) ≠ .dirty := by
  have line : n / CACHE_LINE ∈ linesOf 0 nn_in_len := by
    rw [mem_linesOf]
    simp only [CACHE_LINE, nn_in_len] at inside ⊢
    omega
  refine run.establishes (J := fun _ => True)
    (P := fun s => s.cached.status (lineOf (.image n)) ≠ .dirty)
    (List.mem_map.mpr ⟨n / CACHE_LINE, line, rfl⟩) trivial (fun _ _ _ _ => trivial)
    (fun _ _ _ _ => trivial) (fun s _ => Cached.not_dirty_cleanLine_self s.cached _)
    (fun _ e _ h => Cached.not_dirty_evict h e) ?_
  intro op hop s h
  obtain ⟨l, -, rfl⟩ := List.mem_map.mp hop
  exact Cached.not_dirty_cleanLine h _

theorem absent_invalidateRange {start size l : Nat}
    (run : Mcu.Runs Mcu.Any (invalidateRange start size) s s')
    (inside : l ∈ linesOf start size) : s'.cached.status (.pool l) = .absent := by
  refine run.establishes (J := fun _ => True)
    (P := fun s => s.cached.status (.pool l) = .absent)
    (List.mem_map.mpr ⟨l, inside, rfl⟩) trivial (fun _ _ _ _ => trivial)
    (fun _ _ _ _ => trivial) (fun s _ => ?_) (fun _ e _ h => Cached.absent_evict h e) ?_
  · rw [Mcu.exec, Cached.status_invalidateLine, if_pos rfl]
  · intro op hop s h
    obtain ⟨l', -, rfl⟩ := List.mem_map.mp hop
    exact Cached.absent_invalidateLine h _

/-- Before the NPU starts, the processor stores the image only, and invalidates lines of the
quantized output only. -/
theorem mem_prepare {image : Nat → V} {op : Op V} (h : op ∈ prepare image) :
    (∃ n, op = .store (.image n) fun _ => image n) ∨ (∃ l, op = .clean (.image l)) ∨
      ∃ l ∈ linesOf 26560 1472, op = .invalidate (.pool l) := by
  simp only [prepare, fs_read, flushImage, invalidateOutputs, number_output, List.range_zero,
    List.flatMap_nil, ec_blob_cache_start_func_1, invalidateRange, List.mem_append, List.mem_map,
    List.not_mem_nil, false_or] at h
  obtain ⟨n, -, rfl⟩ | ⟨l, -, rfl⟩ | ⟨l, hl, rfl⟩ := h
  · exact Or.inl ⟨n, rfl⟩
  · exact Or.inr (Or.inl ⟨l, rfl⟩)
  · exact Or.inr (Or.inr ⟨l, hl, rfl⟩)

/-- The image is flushed and the quantized output invalidated before the NPU starts. -/
theorem prepared_of_run {image : Nat → V} (h : DirtyRecordsOnly s)
    (run : Mcu.Runs Mcu.Any (prepare image) s s') : Prepared image s' := by
  have spares : ∀ op ∈ prepare image, SparesPool op := by
    intro op hop
    obtain ⟨n, rfl⟩ | ⟨l, rfl⟩ | ⟨l, -, rfl⟩ := mem_prepare hop <;> trivial
  have records := h.run run spares
  obtain ⟨s₁, read, run⟩ := run.split
  obtain ⟨s₂, flush, run⟩ := run.split
  have invalidate : Mcu.Runs Mcu.Any (invalidateRange 26560 1472) s₂ s' := run
  refine ⟨fun n hn => ?_, fun l lo hi => ?_, records⟩
  · have held : s₂.cached.Holds lineOf (.image n) (image n) := by
      refine holds_run (holds_fs_read read hn) flush fun op hop => ?_
      obtain ⟨l, -, rfl⟩ := List.mem_map.mp hop
      trivial
    refine invalidate.preserves (P := fun s => s.cached.Stored lineOf (.image n) (image n))
      (fun _ e _ h => h.evict e) ?_ (held.stored (not_dirty_flushImage flush hn))
    intro op hop s h
    obtain ⟨l, -, rfl⟩ := List.mem_map.mp hop
    exact h.invalidateLine _
  · refine absent_invalidateRange invalidate (mem_linesOf.mpr ?_)
    simp only [CACHE_LINE, QUANTIZED] at lo ⊢
    omega

/-! ## The NPU epochs -/

/-- The state between the stores of the NPU: memory agrees with a cacheless one `m` on what
is defined, and no line that may be written back has any of it. -/
structure Computed (known : List Nat) (m : Addr → V) (s : Mcu V) : Prop where
  records : DirtyRecordsOnly s
  image : ∀ n < nn_in_len, s.cached.status (lineOf (.image n)) ≠ .dirty
  agree : ∀ a, Defined known a → s.cached.mem a = m a

theorem Prepared.computed {image : Nat → V} (h : Prepared image s) {m : Addr → V}
    (agree : ∀ n, m (.image n) = image n) : Computed [] m s where
  records := h.records
  image n hn := (h.image n hn).settled
  agree a ha := by
    cases a with
    | image n => exact (h.image n ha).mem.trans (agree n).symm
    | pool n => cases ha

section Computed

variable {known : List Nat} {m : Addr → V}

/-- No eviction that spares the records changes what the NPU reads. -/
theorem Computed.evict (h : Computed known m s) {e : Eviction Line} (spares : SparesRecords s e) :
    Computed known m (s.evict e) where
  records := h.records.evict e
  image n hn := Cached.not_dirty_evict (h.image n hn) e
  agree a ha := by
    refine (Cached.mem_evict e ?_).trans (h.agree a ha)
    rintro l rfl dirty same
    cases a with
    | image n =>
        rw [← same] at dirty
        exact h.image n ha dirty
    | pool n =>
        subst same
        by_cases small : n / CACHE_LINE < RECORDS_END / CACHE_LINE + 1
        · exact spares _ small rfl dirty
        · exact h.records _ (by omega) dirty

/-- A store that reads what is defined defines its target. -/
theorem Computed.exec (h : Computed known m s) {st : NpuStore V}
    (reads : ∀ a ∈ st.reads, Defined known a) :
    Computed (st.target :: known) (Function.update m (.pool st.target) (st.value m))
      (s.exec (.npu st)) where
  records l hl := h.records l hl
  image n hn := h.image n hn
  agree a ha := by
    have value : st.value s.cached.mem = st.value m :=
      st.value_congr _ _ fun a ha => h.agree a (reads a ha)
    change Function.update s.cached.mem (.pool st.target) (st.value s.cached.mem) a = _
    rw [Function.update_apply, Function.update_apply, value]
    split
    · rfl
    · next other =>
        refine h.agree a ?_
        cases a with
        | image n => exact ha
        | pool n =>
            cases ha with
            | head => exact absurd rfl other
            | tail _ h => exact h

/-- The NPU computes as if there were no cache. -/
theorem Computed.run {allowed : Mcu V → Eviction Line → Prop}
    (sparing : ∀ s e, allowed s e → SparesRecords s e) {stores : List (NpuStore V)}
    (flow : Dataflow known stores) (run : Mcu.Runs allowed (stores.map .npu) s s')
    (h : Computed known m s) :
    Computed ((stores.map (·.target)).reverse ++ known) (applyStores stores m) s' := by
  induction stores generalizing s known m with
  | nil =>
      exact run.preserves (P := Computed known m) (fun _ _ ok h => h.evict (sparing _ _ ok))
        (fun _ h => nomatch h) h
  | cons st stores ih =>
      obtain ⟨s₁, evictions, rest⟩ := run.uncons
      have h₁ := evictions.preserves (P := Computed known m)
        (fun _ _ ok h => h.evict (sparing _ _ ok)) (fun _ h => nomatch h) h
      have h₂ := ih flow.2 rest (h₁.exec flow.1)
      rwa [List.map_cons, List.reverse_cons, List.append_assoc, List.singleton_append]

end Computed

/-- The NPU brings no line into the cache. -/
theorem absent_npu {allowed : Mcu V → Eviction Line → Prop} {net : Network V}
    (run : Mcu.Runs allowed (npuEpochs net) s s') {l : Line} (h : s.cached.status l = .absent) :
    s'.cached.status l = .absent := by
  refine run.preserves (P := fun s => s.cached.status l = .absent)
    (fun _ e _ h => Cached.absent_evict h e) ?_ h
  intro op hop s h
  obtain ⟨st, -, rfl⟩ := List.mem_map.mp hop
  exact h

/-- What the NPU leaves in memory, the processor reads. -/
theorem holds_of_mem {allowed : Mcu V → Eviction Line → Prop} {net : Network V}
    {image : Nat → V} (prepared : Prepared image s) (run : Mcu.Runs allowed (npuEpochs net) s s')
    {i : Nat} (inside : i < QUANTIZED_LEN) {v : V}
    (value : s'.cached.mem (.pool (QUANTIZED + i)) = v) :
    s'.cached.Holds lineOf (.pool (QUANTIZED + i)) v := by
  refine Cached.holds_of_absent (absent_npu run (prepared.absent _ ?_ ?_)) value
  all_goals
    simp only [QUANTIZED, QUANTIZED_LEN, CACHE_LINE] at inside ⊢
    omega

/-- After the NPU epochs, the processor reads the quantized output of the network. -/
theorem holds_quantized {allowed : Mcu V → Eviction Line → Prop}
    (sparing : ∀ s e, allowed s e → SparesRecords s e) {net : Network V} {image : Nat → V}
    (prepared : Prepared image s) (run : Mcu.Runs allowed (npuEpochs net) s s') :
    ∀ i < QUANTIZED_LEN,
      s'.cached.Holds lineOf (.pool (QUANTIZED + i)) (net.quantized image i) := by
  intro i hi
  obtain ⟨st, member, target⟩ := net.output i hi
  rw [Network.quantized]
  refine holds_of_mem prepared run hi
    (((prepared.computed ?_).run sparing net.dataflow run).agree _ ?_)
  · exact fun n => rfl
  · rw [List.append_nil]
    exact List.mem_reverse.mpr (List.mem_map.mpr ⟨st, member, target⟩)

/-! ## To post-processing -/

/-- A store of a byte of the value in the register. -/
theorem holds_store_byte {net : Network V} {i b : Nat} {v : V} (value : s.reg = v) :
    (s.exec (.store (.pool (4 * i + b)) fun x => net.dequantize x b)).cached.Holds lineOf
      (.pool (4 * i + b)) (net.dequantize v b) := by
  rw [← value]
  exact Cached.holds_store_self s.cached _ _

/-- One value is dequantized. -/
theorem holds_dequantizeValue {net : Network V} {i : Nat} {v : V}
    (held : s.cached.Holds lineOf (.pool (QUANTIZED + i)) v)
    (run : Mcu.Runs Mcu.Any (dequantizeValue net i) s s') {b : Nat} (hb : b < 4) :
    s'.cached.Holds lineOf (.pool (4 * i + b)) (net.dequantize v b) := by
  obtain ⟨s₁, evictions, stores⟩ := run.uncons
  have value : s₁.cached.view lineOf (.pool (QUANTIZED + i)) = v :=
    (holds_run held evictions fun _ h => nomatch h).view_eq
  -- the register keeps the value between the stores of its bytes
  have bytes : s'.cached.Holds lineOf (.pool (4 * i + b)) (net.dequantize v b) ∧ s'.reg = v := by
    refine stores.establishes (J := fun s => s.reg = v)
      (P := fun s => s.cached.Holds lineOf (.pool (4 * i + b)) (net.dequantize v b) ∧ s.reg = v)
      (List.mem_map.mpr ⟨b, List.mem_range.mpr hb, rfl⟩) value
      (fun s _ _ h => (h : s.reg = v)) ?_ (fun s h => ⟨holds_store_byte h, h⟩)
      (fun s e _ h => ⟨h.1.evict e, (h.2 : s.reg = v)⟩) ?_
    · intro op hop s h
      obtain ⟨k, -, rfl⟩ := List.mem_map.mp hop
      exact h
    · rintro op hop s ⟨held, h⟩
      obtain ⟨k, -, rfl⟩ := List.mem_map.mp hop
      refine ⟨?_, h⟩
      by_cases same : b = k
      · rw [same]
        exact holds_store_byte h
      · refine holds_exec held fun eq => same ?_
        have offsets := Addr.pool.inj eq
        omega
  exact bytes.1

/-- Dequantizing a value stores into its own bytes only. -/
theorem keeps_dequantizeValue {net : Network V} {i n : Nat} (other : n < 4 * i ∨ 4 * i + 4 ≤ n) :
    ∀ op ∈ dequantizeValue net i, Keeps (.pool n) op := by
  intro op hop
  cases hop with
  | head => trivial
  | tail _ hop =>
      obtain ⟨b, hb, rfl⟩ := List.mem_map.mp hop
      rw [List.mem_range] at hb
      intro eq
      have offsets := Addr.pool.inj eq
      omega

theorem keeps_dequantizeValues {net : Network V} {is : List Nat} {n : Nat}
    (other : ∀ i ∈ is, n < 4 * i ∨ 4 * i + 4 ≤ n) :
    ∀ op ∈ is.flatMap (dequantizeValue net), Keeps (.pool n) op := by
  intro op hop
  obtain ⟨i, hi, hop⟩ := List.mem_flatMap.mp hop
  exact keeps_dequantizeValue (other i hi) op hop

/-- The loop of `ll_sw_forward_dequantizelinear`: a quantized value survives until it is
read, and its bytes survive the rest of the loop. -/
theorem holds_dequantizeValues {net : Network V} {i : Nat} (inside : i < QUANTIZED_LEN) {v : V}
    (held : s.cached.Holds lineOf (.pool (QUANTIZED + i)) v)
    (run : Mcu.Runs Mcu.Any ((List.range QUANTIZED_LEN).flatMap (dequantizeValue net)) s s')
    {b : Nat} (hb : b < 4) :
    s'.cached.Holds lineOf (.pool (4 * i + b)) (net.dequantize v b) := by
  obtain ⟨before, after, split⟩ := List.append_of_mem (List.mem_range.mpr inside)
  have once : i ∉ after := by
    have nodup := @List.nodup_range QUANTIZED_LEN
    rw [split, List.nodup_append] at nodup
    exact (List.nodup_cons.mp nodup.2.1).1
  have bound : ∀ j ∈ before, j < QUANTIZED_LEN := by
    intro j hj
    rw [← List.mem_range, split]
    exact List.mem_append_left _ hj
  rw [split, List.flatMap_append, List.flatMap_cons] at run
  obtain ⟨s₁, values, run⟩ := run.split
  obtain ⟨s₂, value, others⟩ := run.split
  have quantized := holds_run held values (keeps_dequantizeValues fun j hj => by
    have small := bound j hj
    simp only [QUANTIZED, QUANTIZED_LEN] at small ⊢
    omega)
  refine holds_run (holds_dequantizeValue quantized value hb) others
    (keeps_dequantizeValues fun j hj => ?_)
  have different : j ≠ i := fun same => once (same ▸ hj)
  omega

/-- No code assigns to `number_output`, so nothing follows epoch 21. -/
theorem finish_eq (net : Network V) : finish net = LL_ATON_End_EpochBlock_21 net := by
  rw [finish, invalidateOutputs, number_output, List.range_zero, List.flatMap_nil, List.append_nil]

/-- Epoch 21 reads the quantized output and leaves the output tensor. -/
theorem holds_finish {net : Network V} {v : Nat → V}
    (held : ∀ i < QUANTIZED_LEN, s.cached.Holds lineOf (.pool (QUANTIZED + i)) (v i))
    (run : Mcu.Runs Mcu.Any (finish net) s s') :
    ∀ n < nn_out_len, s'.cached.Holds lineOf (.pool n) (net.dequantize (v (n / 4)) (n % 4)) := by
  intro n hn
  have inside : n / 4 < QUANTIZED_LEN := by
    simp only [nn_out_len, QUANTIZED_LEN] at hn ⊢
    omega
  rw [finish_eq] at run
  obtain ⟨s₁, first, run⟩ := run.split
  obtain ⟨s₂, loop, last⟩ := run.split
  have quantized : s₁.cached.Holds lineOf (.pool (QUANTIZED + n / 4)) (v (n / 4)) := by
    refine holds_run (held _ inside) first fun op hop => ?_
    obtain ⟨l, hl, rfl⟩ := List.mem_map.mp hop
    rw [mem_linesOf] at hl
    intro eq
    have lines := Line.pool.inj eq
    simp only [CACHE_LINE, QUANTIZED] at hl lines
    omega
  have byte := holds_dequantizeValues inside quantized loop (Nat.mod_lt n (by decide : 0 < 4))
  rw [Nat.div_add_mod] at byte
  refine holds_run byte last fun op hop => ?_
  obtain ⟨l, -, rfl⟩ := List.mem_map.mp hop
  trivial

/-- Epoch 21 stores into the output tensor only. -/
theorem sparesPool_finish (net : Network V) : ∀ op ∈ finish net, SparesPool op := by
  intro op hop
  simp only [finish_eq, LL_ATON_End_EpochBlock_21, invalidateRange, cleanRange, List.mem_append,
    List.mem_map, List.mem_flatMap, List.mem_range] at hop
  obtain ⟨l, -, rfl⟩ | ⟨i, hi, hop⟩ | ⟨l, -, rfl⟩ := hop
  · trivial
  · cases hop with
    | head => trivial
    | tail _ hop =>
        obtain ⟨b, hb, rfl⟩ := List.mem_map.mp hop
        rw [List.mem_range] at hb
        change 4 * i + b < RECORDS_END
        simp only [QUANTIZED_LEN, RECORDS_END] at hi ⊢
        omega
  · trivial

theorem InRecords.sparesPool {op : Op V} (h : InRecords op) : SparesPool op := by
  cases op with
  | store a f =>
      cases a with
      | pool n => exact h
      | image n => exact h.elim
  | load a => trivial
  | clean l => trivial
  | invalidate l => trivial
  | npu st => trivial

/-- The records that an inference leaves dirty lie in the output tensor, or right behind. -/
theorem dirtyRecordsOnly_inference {net : Network V} {allowed : Mcu V → Eviction Line → Prop}
    {r : ImageRun V} {computed finished next : Mcu V} {image : Nat → V}
    (prepared : Prepared image s)
    (npu : Mcu.Runs allowed (npuEpochs net) s computed)
    (after : Mcu.Runs Mcu.Any (finish net) computed finished)
    (post : Mcu.Runs Mcu.Any r.post finished next) : DirtyRecordsOnly next := by
  have h₁ : DirtyRecordsOnly computed := by
    refine prepared.records.run npu fun op hop => ?_
    obtain ⟨st, -, rfl⟩ := List.mem_map.mp hop
    trivial
  have h₂ : DirtyRecordsOnly finished := h₁.run after (sparesPool_finish net)
  exact h₂.run post fun op hop => (r.inRecords op hop).sparesPool

/-! ## All images -/

/-- Inference is not disturbed by the post-processing of the previous image, in every run
that spares its dirty records while the NPU works: for each image, the processor reads the
output tensor of that image, and goes on reading it while post-processing has not
overwritten it. -/
theorem output_undisturbed {net : Network V} {rs : List (ImageRun V)} {states : List (Mcu V)}
    (start : DirtyRecordsOnly s) (run : Inferences net SparesRecords s rs states) :
    List.Forall₂ (fun r t => ∀ n < nn_out_len,
      t.cached.Holds lineOf (.pool n) (net.outputTensor r.image n)) rs states := by
  induction run with
  | nil s => exact .nil
  | cons before npu after post later ih =>
      have prepared := prepared_of_run start before
      have quantized := holds_quantized (fun _ _ h => h) prepared npu
      exact .cons (holds_finish quantized after)
        (ih (dirtyRecordsOnly_inference prepared npu after post))

/-! ## A record written back -/

/-- The run of a program without evictions. -/
def Mcu.quiet (ops : List (Op V)) (s : Mcu V) : Mcu V := ops.foldl (fun s op => s.exec op) s

theorem Mcu.runs_quiet {allowed : Mcu V → Eviction Line → Prop} (ops : List (Op V)) (s : Mcu V) :
    Mcu.Runs allowed ops s (s.quiet ops) :=
  Run.undisturbed ops s

/-- Without evictions, the NPU changes memory only. -/
theorem cached_quiet_npu (stores : List (NpuStore V)) (s : Mcu V) :
    (s.quiet (stores.map .npu)).cached =
      { s.cached with mem := applyStores stores s.cached.mem } := by
  induction stores generalizing s with
  | nil => rfl
  | cons st stores ih =>
      rw [List.map_cons]
      exact ih (s.exec (.npu st))

/-- A line is written back over what the NPU has stored, and the NPU goes on from there. -/
theorem exists_disturbed {net : Network V} (first : List (NpuStore V)) {last : List (NpuStore V)}
    (split : net.stores = first ++ last) {image : Nat → V} (prepared : Prepared image s) {l : Line}
    (dirty : s.cached.status l = .dirty) :
    ∃ computed finished, Mcu.Runs Mcu.Any (npuEpochs net) s computed ∧
      Mcu.Runs Mcu.Any (finish net) computed finished ∧
      ∀ n < nn_out_len, finished.cached.Holds lineOf (.pool n) (net.dequantize
        (applyStores last
          (fun a => if lineOf a = l then s.cached.data a else applyStores first s.cached.mem a)
          (.pool (QUANTIZED + n / 4))) (n % 4)) := by
  have evicted : ∃ s₁, Mcu.Runs Mcu.Any (first.map .npu) s s₁ ∧ s₁.cached.mem =
      fun a => if lineOf a = l then s.cached.data a else applyStores first s.cached.mem a := by
    refine ⟨(s.quiet (first.map .npu)).evict (.writeBack l),
      (Mcu.runs_quiet (first.map .npu) s).append_disturbed trivial, ?_⟩
    simp only [Mcu.evict, Cached.evict, Cached.cleanLine, cached_quiet_npu, dirty, if_true]
  obtain ⟨s₁, before, written⟩ := evicted
  have run : Mcu.Runs Mcu.Any (npuEpochs net) s (s₁.quiet (last.map .npu)) := by
    rw [npuEpochs, split, List.map_append]
    exact before.append (Mcu.runs_quiet (last.map .npu) s₁)
  have mem : (s₁.quiet (last.map .npu)).cached.mem = applyStores last s₁.cached.mem := by
    rw [cached_quiet_npu]
  generalize s₁.quiet (last.map .npu) = computed at run mem
  obtain ⟨finished, after⟩ : ∃ finished, Mcu.Runs Mcu.Any (finish net) computed finished :=
    ⟨_, Mcu.runs_quiet (finish net) computed⟩
  have held := holds_finish (fun i hi => holds_of_mem prepared run hi rfl) after
  rw [mem, written] at held
  exact ⟨computed, finished, run, after, held⟩

/-- A record that post-processing left dirty stays so until the NPU starts. -/
theorem dirty_quiet_prepare (image : Nat → V) {n : Nat} (record : n < RECORDS_END)
    (dirty : s.cached.status (lineOf (.pool n)) = .dirty) :
    (s.quiet (prepare image)).cached.status (lineOf (.pool n)) = .dirty ∧
      (s.quiet (prepare image)).cached.data (.pool n) = s.cached.data (.pool n) := by
  have quiet : Mcu.Runs (fun _ _ => False) (prepare image) s (s.quiet (prepare image)) :=
    Mcu.runs_quiet (prepare image) s
  refine quiet.preserves (P := fun t => t.cached.status (lineOf (.pool n)) = .dirty ∧
    t.cached.data (.pool n) = s.cached.data (.pool n)) (fun _ _ h => h.elim) ?_ ⟨dirty, rfl⟩
  rintro op hop t ⟨status, data⟩
  obtain ⟨k, rfl⟩ | ⟨l, rfl⟩ | ⟨l, hl, rfl⟩ := mem_prepare hop
  · have other : lineOf (.pool n) ≠ lineOf (.image k) := fun eq => nomatch eq
    rw [Mcu.exec, Cached.status_store, if_neg other, Cached.data_store_of_ne _ _ other]
    exact ⟨status, data⟩
  · have other : lineOf (.pool n) ≠ .image l := fun eq => nomatch eq
    rw [Mcu.exec, Cached.status_cleanLine, if_neg fun h => other h.1, Cached.data_cleanLine]
    exact ⟨status, data⟩
  · have other : lineOf (.pool n) ≠ .pool l := by
      intro eq
      have lines := Line.pool.inj eq
      rw [mem_linesOf] at hl
      simp only [CACHE_LINE, RECORDS_END] at hl lines record
      omega
    rw [Mcu.exec, Cached.status_invalidateLine, if_neg other]
    exact ⟨status, data⟩

/-- The image that was flushed stays in the cache until the NPU starts. -/
theorem clean_quiet_prepare (h : DirtyRecordsOnly s) (image : Nat → V) {n : Nat}
    (inside : n < nn_in_len) :
    (s.quiet (prepare image)).cached.status (lineOf (.image n)) = .clean := by
  have quiet : Mcu.Runs (fun _ _ => False) (prepare image) s (s.quiet (prepare image)) :=
    Mcu.runs_quiet (prepare image) s
  have any : Mcu.Runs Mcu.Any (prepare image) s (s.quiet (prepare image)) :=
    Mcu.runs_quiet (prepare image) s
  have present : (s.quiet (prepare image)).cached.status (lineOf (.image n)) ≠ .absent := by
    refine quiet.establishes (J := fun _ => True)
      (P := fun t => t.cached.status (lineOf (.image n)) ≠ .absent)
      (List.mem_append_left _ (List.mem_map.mpr ⟨n, List.mem_range.mpr inside, rfl⟩)) trivial
      (fun _ _ _ _ => trivial) (fun _ _ _ _ => trivial) (fun t _ => ?_) (fun _ _ h => h.elim) ?_
    · rw [Mcu.exec, Cached.status_store, if_pos rfl]
      decide
    · intro op hop t h
      obtain ⟨k, rfl⟩ | ⟨l, rfl⟩ | ⟨l, -, rfl⟩ := mem_prepare hop
      · rw [Mcu.exec, Cached.status_store]
        split
        · decide
        · exact h
      · rw [Mcu.exec, Cached.status_cleanLine]
        split
        · decide
        · exact h
      · have other : lineOf (.image n) ≠ .pool l := fun eq => nomatch eq
        rwa [Mcu.exec, Cached.status_invalidateLine, if_neg other]
  have settled := ((prepared_of_run h any).image n inside).settled
  generalize (s.quiet (prepare image)).cached.status (lineOf (.image n)) = status at present settled
  cases status with
  | absent => exact absurd rfl present
  | clean => rfl
  | dirty => exact absurd rfl settled

theorem applyStores_append (stores stores' : List (NpuStore V)) (m : Addr → V) :
    applyStores (stores ++ stores') m = applyStores stores' (applyStores stores m) :=
  List.foldl_append

theorem applyStores_cons (st : NpuStore V) (stores : List (NpuStore V)) (m : Addr → V) :
    applyStores (st :: stores) m =
      applyStores stores (Function.update m (.pool st.target) (st.value m)) := rfl

theorem applyStores_last (stores : List (NpuStore V)) (st : NpuStore V) (m : Addr → V) :
    applyStores (stores ++ [st]) m (.pool st.target) = st.value (applyStores stores m) := by
  rw [applyStores_append, applyStores_cons]
  exact Function.update_self _ _ _

/-- An offset that is no target keeps its value. -/
theorem applyStores_untouched {stores : List (NpuStore V)} {n : Nat}
    (untouched : ∀ st ∈ stores, st.target ≠ n) (m : Addr → V) :
    applyStores stores m (.pool n) = m (.pool n) := by
  induction stores generalizing m with
  | nil => rfl
  | cons st stores ih =>
      have other : Addr.pool n ≠ .pool st.target :=
        fun eq => untouched st List.mem_cons_self (Addr.pool.inj eq).symm
      rw [applyStores_cons, ih fun st' h => untouched st' (List.mem_cons_of_mem _ h)]
      exact Function.update_of_ne other _ _

/-! A network that hands the first byte of the image from epoch to epoch, as the objectness
of the first anchor. -/

/-- Epoch 3 stores a byte of the image. -/
def imageStore : NpuStore UInt8 :=
  ⟨3, 0, [.image 0], fun m => m (.image 0), fun _ _ h => h _ List.mem_cons_self⟩

/-- A store that copies one byte of the pool. -/
def copyStore (epoch source target : Nat) : NpuStore UInt8 :=
  ⟨epoch, target, [.pool source], fun m => m (.pool source), fun _ _ h => h _ List.mem_cons_self⟩

/-- No other anchor has an object: 95 is a negative objectness, and 96 is zero. -/
def backgroundStore (i : Nat) : NpuStore UInt8 :=
  ⟨20, QUANTIZED + i, [], fun _ => if i % 6 = 4 then 95 else 96, fun _ _ _ => rfl⟩

def outputStores (is : List Nat) : List (NpuStore UInt8) :=
  is.map backgroundStore ++ [copyStore 20 200704 (QUANTIZED + 4)]

theorem mem_outputStores {is : List Nat} {st : NpuStore UInt8} (h : st ∈ outputStores is) :
    st.epoch = 20 ∧ ∃ i, (i ∈ is ∨ i = 4) ∧ st.target = QUANTIZED + i := by
  rw [outputStores, List.mem_append, List.mem_map, List.mem_singleton] at h
  obtain ⟨i, hi, rfl⟩ | rfl := h
  · exact ⟨rfl, i, Or.inl hi, rfl⟩
  · exact ⟨rfl, 4, Or.inr rfl, rfl⟩

theorem dataflow_outputStores (is : List Nat) {known : List Nat} (h : 200704 ∈ known) :
    Dataflow known (outputStores is) := by
  induction is generalizing known with
  | nil => exact ⟨fun a ha => List.mem_singleton.mp ha ▸ h, trivial⟩
  | cons i is ih =>
      change Dataflow known (backgroundStore i :: outputStores is)
      exact ⟨fun _ ha => (nomatch ha), ih (List.mem_cons_of_mem _ h)⟩

/-- From epoch 4 on, the objectness is the byte that epoch 3 has stored. -/
theorem applyStores_outputStores {is : List Nat} (small : ∀ i ∈ is, i < QUANTIZED_LEN)
    (m : Addr → UInt8) : applyStores (copyStore 4 0 200704 :: outputStores is) m
      (.pool (QUANTIZED + 4)) = m (.pool 0) := by
  have untouched : ∀ st ∈ is.map backgroundStore, st.target ≠ 200704 := by
    intro st hst
    obtain ⟨i, hi, rfl⟩ := List.mem_map.mp hst
    have bound := small i hi
    simp only [backgroundStore, QUANTIZED, QUANTIZED_LEN] at bound ⊢
    omega
  have copied (m : Addr → UInt8) :
      applyStores (outputStores is) m (.pool (QUANTIZED + 4)) = m (.pool 200704) := by
    exact (applyStores_last _ (copyStore 20 200704 (QUANTIZED + 4)) m).trans
      (applyStores_untouched untouched m)
  rw [applyStores_cons, copied]
  exact Function.update_self _ _ _

/-- The bits of `k * 0.4244495`, the scale of `Dequantize_54`, rounded to nearest even. -/
def scaledBits (k : Nat) : Nat :=
  let product := k * 0xD95172
  let shift := Nat.log2 product - 23
  let unit := 1 <<< shift
  let q := product / unit
  let r := product % unit
  if k = 0 then 0
  else ((124 + shift) <<< 23) +
    (if unit < 2 * r ∨ (unit = 2 * r ∧ q % 2 = 1) then q + 1 else q)

/-- A byte of a little-endian word. -/
def byteOf (word b : Nat) : UInt8 := UInt8.ofNat (word >>> (8 * b))

/-- `Dequantize_54`, with the zero point 96. -/
def dequantizeByte (x : UInt8) (b : Nat) : UInt8 :=
  byteOf (if x.toInt8 < 96 then 0x80000000 + scaledBits (96 - x.toInt8).toUInt8.toNat
    else scaledBits (x.toInt8 - 96).toUInt8.toNat) b

def copyStores (is : List Nat) : List (NpuStore UInt8) :=
  imageStore :: copyStore 4 0 200704 :: outputStores is

theorem ordered_copyStores (is : List Nat) :
    (copyStores is).Pairwise fun a b => a.epoch ≤ b.epoch := by
  have outputs : ∀ st ∈ outputStores is, st.epoch = 20 := fun st h => (mem_outputStores h).1
  refine List.pairwise_cons.mpr ⟨fun st h => ?_, List.pairwise_cons.mpr ⟨fun st h => ?_, ?_⟩⟩
  · cases h with
    | head => decide
    | tail _ h => rw [outputs st h]; decide
  · rw [outputs st h]
    decide
  · exact List.pairwise_of_forall_mem_list fun a ha b hb =>
      Nat.le_of_eq ((outputs a ha).trans (outputs b hb).symm)

theorem dataflow_copyStores (is : List Nat) : Dataflow [] (copyStores is) := by
  refine ⟨fun a ha => ?_, fun a ha => ?_, dataflow_outputStores is List.mem_cons_self⟩
  · rw [List.mem_singleton.mp ha]
    show 0 < nn_in_len
    simp only [nn_in_len]
    omega
  · rw [List.mem_singleton.mp ha]
    exact List.mem_cons_self

/-- The network with these stores. Only epochs 3, 4 and 20 store, and only where they may. -/
def copyNetwork : Network UInt8 where
  stores := copyStores (List.range QUANTIZED_LEN)
  dequantize := dequantizeByte
  ordered := ordered_copyStores _
  inBuffer := by
    intro st h
    rw [copyStores, List.mem_cons, List.mem_cons] at h
    obtain rfl | rfl | h := h
    · exact ⟨⟨3, 0, 200704⟩, by simp [activations], rfl, by decide, by decide⟩
    · exact ⟨⟨4, 200704, 401408⟩, by simp [activations], rfl, by decide, by decide⟩
    · obtain ⟨epoch, i, hi, target⟩ := mem_outputStores h
      rw [List.mem_range] at hi
      refine ⟨⟨20, 26560, 28030⟩, by simp [activations], epoch.symm, ?_, ?_⟩
      all_goals
        simp only [target, QUANTIZED, QUANTIZED_LEN] at hi ⊢
        omega
  dataflow := dataflow_copyStores _
  output i hi := by
    refine ⟨backgroundStore i, ?_, rfl⟩
    exact List.mem_cons_of_mem _ (List.mem_cons_of_mem _ (List.mem_append_left _
      (List.mem_map.mpr ⟨i, List.mem_range.mpr hi, rfl⟩)))

theorem stores_copyNetwork : copyNetwork.stores =
    imageStore :: copyStore 4 0 200704 :: outputStores (List.range QUANTIZED_LEN) := rfl

theorem quantized_copyNetwork (image : Nat → UInt8) :
    copyNetwork.quantized image 4 = image 0 := by
  rw [Network.quantized, stores_copyNetwork, applyStores_cons,
    applyStores_outputStores fun i hi => List.mem_range.mp hi]
  exact Function.update_self _ _ _

/-- An image at which the network finds a person. -/
def person (_ : Nat) : UInt8 := 96

/-- The stores of a word. -/
def storeWord (k word : Nat) : List (Op UInt8) :=
  (List.range 4).map fun b => .store (.pool (4 * k + b)) fun _ => byteOf word b

/-- The first anchor is found, with confidence 0.5 and centre (0.5/7, 0.5/7). Its objectness
0.0 is the threshold, and so are the other words that it is decoded from. -/
def foundRun : ImageRun UInt8 where
  image := person
  post := storeWord 4 0x3F000000 ++ (storeWord 5 0 ++ (storeWord 0 0x3D924925 ++
    (storeWord 1 0x3D924925 ++ (storeWord 2 0x3C31EFF1 ++ storeWord 3 0x3D17439D))))
  inRecords := by
    intro op hop
    simp only [List.mem_append, storeWord, List.mem_map, List.mem_range] at hop
    obtain ⟨b, hb, rfl⟩ | ⟨b, hb, rfl⟩ | ⟨b, hb, rfl⟩ | ⟨b, hb, rfl⟩ | ⟨b, hb, rfl⟩ |
      ⟨b, hb, rfl⟩ := hop
    all_goals
      simp only [InRecords, RECORDS_END]
      omega

/-- No anchor is found, and no record stored. -/
def lostRun : ImageRun UInt8 where
  image := person
  post := []
  inRecords _ hop := nomatch hop

/-- The first record is dirty, and its first byte is 37. -/
theorem dirty_foundRun (s : Mcu UInt8) :
    (s.quiet foundRun.post).cached.status (lineOf (.pool 0)) = .dirty ∧
      (s.quiet foundRun.post).cached.data (.pool 0) = 37 := by
  constructor
  · rfl
  · rfl

/-- A cache without lines. -/
def cold : Mcu UInt8 := ⟨⟨fun _ => 0, fun _ => 0, fun _ => .absent⟩, 0⟩

theorem dirtyRecordsOnly_cold : DirtyRecordsOnly cold := fun _ _ h => nomatch h

/-- An image at which it does not. -/
def background (_ : Nat) : UInt8 := 95

/-- No anchor is found in it, and no record stored. -/
def backgroundRun : ImageRun UInt8 where
  image := background
  post := []
  inRecords _ hop := absurd hop List.not_mem_nil

/-- The epochs of the NPU leave the cache alone. -/
theorem status_quiet_npu (net : Network V) (s : Mcu V) :
    (s.quiet (npuEpochs net)).cached.status = s.cached.status := by
  rw [npuEpochs, cached_quiet_npu]

/-- A person, and then an image without one. The record of the person is dirty while the NPU
works on the second image. Meanwhile a line of that image is dropped, and as soon as the NPU
is done the record is written back. -/
theorem output_undisturbed_found :
    ∃ found prepared computed finished : Mcu UInt8,
      found = ((cold.quiet (prepare person)).quiet (npuEpochs copyNetwork)).quiet
        (finish copyNetwork) ∧
      prepared = (found.quiet foundRun.post).quiet (prepare background) ∧
      computed = (prepared.evict (.drop (.image 0))).quiet (npuEpochs copyNetwork) ∧
      finished = (computed.evict (.writeBack (.pool 0))).quiet (finish copyNetwork) ∧
      prepared.cached.status (.image 0) = .clean ∧
      prepared.cached.status (.pool 0) = .dirty ∧ computed.cached.status (.pool 0) = .dirty ∧
      List.Forall₂ (fun (r : ImageRun UInt8) (t : Mcu UInt8) => ∀ n < nn_out_len,
          t.cached.Holds lineOf (.pool n) (copyNetwork.outputTensor r.image n))
        [foundRun, backgroundRun] [found, finished] := by
  obtain ⟨p₁, hp₁⟩ : ∃ p, p = cold.quiet (prepare person) := ⟨_, rfl⟩
  obtain ⟨c₁, hc₁⟩ : ∃ c, c = p₁.quiet (npuEpochs copyNetwork) := ⟨_, rfl⟩
  obtain ⟨found, hf₁⟩ : ∃ f, f = c₁.quiet (finish copyNetwork) := ⟨_, rfl⟩
  obtain ⟨n₁, hn₁⟩ : ∃ n, n = found.quiet foundRun.post := ⟨_, rfl⟩
  obtain ⟨prepared, hp₂⟩ : ∃ p, p = n₁.quiet (prepare background) := ⟨_, rfl⟩
  obtain ⟨computed, hc₂⟩ : ∃ c,
    c = (prepared.evict (.drop (.image 0))).quiet (npuEpochs copyNetwork) := ⟨_, rfl⟩
  obtain ⟨finished, hf₂⟩ : ∃ f,
    f = (computed.evict (.writeBack (.pool 0))).quiet (finish copyNetwork) := ⟨_, rfl⟩
  -- the first image, without evictions
  have before₁ : Mcu.Runs Mcu.Any (prepare person) cold p₁ := hp₁ ▸ Mcu.runs_quiet _ _
  have npu₁ : Mcu.Runs SparesRecords (npuEpochs copyNetwork) p₁ c₁ := hc₁ ▸ Mcu.runs_quiet _ _
  have after₁ : Mcu.Runs Mcu.Any (finish copyNetwork) c₁ found := hf₁ ▸ Mcu.runs_quiet _ _
  have post₁ : Mcu.Runs Mcu.Any foundRun.post found n₁ := hn₁ ▸ Mcu.runs_quiet _ _
  have records := dirtyRecordsOnly_inference (prepared_of_run dirtyRecordsOnly_cold before₁)
    npu₁ after₁ post₁
  -- the second image, with its two evictions
  have before₂ : Mcu.Runs Mcu.Any (prepare background) n₁ prepared := hp₂ ▸ Mcu.runs_quiet _ _
  have npu₂ : Mcu.Runs SparesRecords (npuEpochs copyNetwork) prepared computed :=
    .disturbed (fun _ _ eq => by cases eq) (hc₂ ▸ Mcu.runs_quiet _ _)
  have after₂ : Mcu.Runs Mcu.Any (finish copyNetwork) computed finished :=
    .disturbed trivial (hf₂ ▸ Mcu.runs_quiet _ _)
  have clean : prepared.cached.status (.image 0) = .clean := by
    have flushed := clean_quiet_prepare records background (by decide : 0 < nn_in_len)
    rwa [← hp₂, show lineOf (.image 0) = .image 0 from rfl] at flushed
  have dirty : prepared.cached.status (.pool 0) = .dirty := by
    have stored := (dirty_foundRun found).1
    rw [← hn₁] at stored
    have kept := (dirty_quiet_prepare background (by decide : 0 < RECORDS_END) stored).1
    rwa [← hp₂, show lineOf (.pool 0) = .pool 0 from rfl] at kept
  have still : computed.cached.status (.pool 0) = .dirty := by
    rw [hc₂, status_quiet_npu, Mcu.evict, Cached.evict, if_pos clean,
      Cached.status_invalidateLine, if_neg (by decide)]
    exact dirty
  refine ⟨found, prepared, computed, finished, by rw [hf₁, hc₁, hp₁], by rw [hp₂, hn₁], hc₂, hf₂,
    clean, dirty, still, ?_⟩
  exact output_undisturbed dirtyRecordsOnly_cold
    (.cons before₁ npu₁ after₁ post₁ (.cons before₂ npu₂ after₂ (.done _) (.nil _)))

/-- The same image twice, where the first record of its first post-processing is written back
between epochs 3 and 4 of the second inference: byte 37 of the record takes the place of the
objectness, and the person is lost. -/
theorem output_disturbed :
    ∃ states, Inferences copyNetwork Mcu.Any cold [foundRun, lostRun] states ∧
      ¬ List.Forall₂ (fun (r : ImageRun UInt8) (t : Mcu UInt8) => ∀ n < nn_out_len,
        t.cached.Holds lineOf (.pool n) (copyNetwork.outputTensor r.image n))
      [foundRun, lostRun] states := by
  obtain ⟨p₁, before₁⟩ : ∃ p, Mcu.Runs Mcu.Any (prepare person) cold p :=
    ⟨_, Mcu.runs_quiet _ _⟩
  obtain ⟨c₁, npu₁⟩ : ∃ c, Mcu.Runs Mcu.Any (npuEpochs copyNetwork) p₁ c := ⟨_, Mcu.runs_quiet _ _⟩
  obtain ⟨f₁, after₁⟩ : ∃ f, Mcu.Runs Mcu.Any (finish copyNetwork) c₁ f := ⟨_, Mcu.runs_quiet _ _⟩
  have prepared₁ := prepared_of_run dirtyRecordsOnly_cold before₁
  have post₁ : Mcu.Runs Mcu.Any foundRun.post f₁ (f₁.quiet foundRun.post) :=
    Mcu.runs_quiet foundRun.post f₁
  obtain ⟨dirty₁, data₁⟩ := dirty_foundRun f₁
  obtain ⟨n₁, hn⟩ : ∃ n, n = f₁.quiet foundRun.post := ⟨_, rfl⟩
  rw [← hn] at post₁ dirty₁ data₁
  have records₁ := dirtyRecordsOnly_inference prepared₁ npu₁ after₁ post₁
  -- the record is still dirty when the NPU works again
  obtain ⟨dirty₂, data₂⟩ := dirty_quiet_prepare person (by decide : 0 < RECORDS_END) dirty₁
  rw [data₁] at data₂
  have before₂ : Mcu.Runs Mcu.Any (prepare person) n₁ (n₁.quiet (prepare person)) :=
    Mcu.runs_quiet (prepare person) n₁
  obtain ⟨p₂, hp⟩ : ∃ p, p = n₁.quiet (prepare person) := ⟨_, rfl⟩
  rw [← hp] at before₂ dirty₂ data₂
  obtain ⟨c₂, f₂, npu₂, after₂, held⟩ :=
    exists_disturbed [imageStore] stores_copyNetwork (prepared_of_run records₁ before₂) dirty₂
  refine ⟨[f₁, f₂], .cons before₁ npu₁ after₁ post₁
    (.cons before₂ npu₂ after₂ (.done f₂) (.nil f₂)), fun correct => ?_⟩
  cases correct with
  | cons _ rest =>
      cases rest with
      | cons correct _ =>
          have wrong := (held 19 (by decide)).view_eq
          have right := (correct 19 (by decide)).view_eq
          rw [applyStores_outputStores fun i hi => List.mem_range.mp hi, if_pos rfl, data₂] at wrong
          rw [wrong, Network.outputTensor, quantized_copyNetwork] at right
          exact absurd right (by decide)

end PeopleDetection
