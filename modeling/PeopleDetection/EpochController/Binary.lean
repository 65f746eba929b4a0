import PeopleDetection.EpochController.Calls

/-!
# Copies of a binary

The loader copies the blob and the tables of a binary. A program asks for a size first, and
calls again with memory of that size. A table can be used where it is or from its copy.
-/

namespace PeopleDetection.EpochController

open Library

/-! ## The blob -/

/-- The binary holds a blob at a pointer, and is addressed by 32 bits. -/
structure BlobAt (binary : Bytes) (ptr : ℕ) (code : List ECInstr) : Prop where
  magic : entryAt binary 0 = some ECASM_BINARY_MAGIC
  blob_offset : ∃ o, entryAt binary 16 = some o ∧ o ≠ 0 ∧ o.toNat = ptr
  blob_magic : entryAt binary ptr = some ECASM_BLOB_MAGIC
  size : ∃ n, entryAt binary (ptr + 4) = some n ∧ n.toNat = code.length
  instrs : ∀ i w, code[i]? = some w → entryAt binary (ptr + 8 + 4 * i) = some w
  addressed : 4 * (code.length + 2) < 2 ^ 32

section Blob

variable {binary : Bytes} {ptr : ℕ} {code : List ECInstr}

/-- The magic number, the size and the instructions. -/
def blobWords (code : List ECInstr) : List ECInstr :=
  ECASM_BLOB_MAGIC :: BitVec.ofNat 32 code.length :: code

theorem ec_get_blob_ptr_eq (held : BlobAt binary ptr code) :
    ec_get_blob_ptr binary = some (some ptr) := by
  obtain ⟨o, offset, present, rfl⟩ := held.blob_offset
  simp only [ec_get_blob_ptr, held.magic, offset, Option.bind_eq_bind, Option.bind_some, ne_eq,
    not_true_eq_false, if_false, if_neg present]

/-- The size in the blob, and the sizes that the loader computes from it. -/
theorem size_of_blobAt (held : BlobAt binary ptr code) :
    ∃ n, entryAt binary (ptr + 4) = some n ∧ n = BitVec.ofNat 32 code.length ∧
      (n + 2).toNat = code.length + 2 ∧ (n * 4).toNat / 4 = code.length := by
  obtain ⟨n, size, length⟩ := held.size
  have addressed := held.addressed
  refine ⟨n, size, ?_, ?_, ?_⟩
  · rw [← length, BitVec.ofNat_toNat, BitVec.setWidth_eq]
  · rw [BitVec.toNat_add, length]
    exact Nat.mod_eq_of_lt (by change code.length + 2 < 2 ^ 32; omega)
  · rw [BitVec.toNat_mul, length]
    change code.length * 4 % 2 ^ 32 / 4 = code.length
    omega

/-- A call without memory asks for the size. -/
theorem ec_copy_blob_none (held : BlobAt binary ptr code) (old : BitVec 32) :
    ec_copy_blob none binary (some old) =
      some (true, none, some (BitVec.ofNat 32 code.length + 2)) := by
  obtain ⟨n, size, rfl, -, -⟩ := size_of_blobAt held
  rw [ec_copy_blob, ec_get_blob_ptr_eq held]
  simp [held.blob_magic, size]

variable {area : WordArea} {available : BitVec 32}

/-- Memory that is aligned and large enough gets the blob. -/
theorem ec_copy_blob_some (held : BlobAt binary ptr code) (aligned : area.address % 8 = 0)
    (enough : code.length + 2 ≤ available.toNat) (room : available.toNat ≤ area.words.length) :
    ec_copy_blob (some area) binary (some available) =
      some (true, some ⟨area.address, blobWords code ++ area.words.drop (code.length + 2)⟩,
        some available) := by
  obtain ⟨n, size, same, total, count⟩ := size_of_blobAt held
  have large : ¬ available < n + 2 := by
    rw [BitVec.not_lt, BitVec.le_def, total]
    exact enough
  have fits : (blobWords code).length ≤ area.words.length := by
    simp only [blobWords, List.length_cons]
    omega
  have read : readWords binary (ptr + 8) code.length = some code :=
    mapM_range_eq_some_iff.mpr ⟨rfl, fun i hi => by
      rw [List.getElem?_eq_getElem hi, held.instrs i _ (List.getElem?_eq_getElem hi)]⟩
  rw [ec_copy_blob, ec_get_blob_ptr_eq held]
  simp only [held.blob_magic, size, Option.bind_eq_bind, Option.bind_some, ne_eq,
    not_true_eq_false, if_false, aligned, large, count, read]
  rw [blobWords, ← same] at fits
  rw [memcpy, if_pos fits, blobWords, ← same]
  rfl

/-- Other memory is left alone. -/
theorem ec_copy_blob_refused (held : BlobAt binary ptr code)
    (refused : ¬ (area.address % 8 = 0 ∧ code.length + 2 ≤ available.toNat)) :
    ec_copy_blob (some area) binary (some available) = some (false, some area, some available) := by
  obtain ⟨n, size, -, total, -⟩ := size_of_blobAt held
  rw [ec_copy_blob, ec_get_blob_ptr_eq held]
  simp only [held.blob_magic, size, Option.bind_eq_bind, Option.bind_some, ne_eq,
    not_true_eq_false, if_false]
  by_cases aligned : area.address % 8 = 0
  · have little : available < n + 2 := by
      rw [BitVec.lt_def, total]
      exact not_le.mp fun enough => refused ⟨aligned, enough⟩
    rw [if_neg (not_not.mpr aligned), if_pos little]
  · rw [if_pos aligned]

/-- A program asks for a size, and calls again with memory of which it says how large it is.
The blob is copied exactly if that memory is aligned and the size is at least the one that was
asked for; no word behind the blob changes, and no call goes beyond the memory. -/
theorem ec_copy_blob_eq (held : BlobAt binary ptr code) :
    ∃ n, (∀ old, ec_copy_blob none binary (some old) = some (true, none, some n)) ∧
      n.toNat = (blobWords code).length ∧
      ∀ (area : WordArea) (available : BitVec 32), available.toNat ≤ area.words.length →
        ec_copy_blob (some area) binary (some available) = some (
          if area.address % 8 = 0 ∧ n ≤ available then
            (true, some ⟨area.address, blobWords code ++ area.words.drop n.toNat⟩, some available)
          else (false, some area, some available)) := by
  obtain ⟨n, -, rfl, total, -⟩ := size_of_blobAt held
  refine ⟨_, ec_copy_blob_none held, total, fun area available room => ?_⟩
  have enough : BitVec.ofNat 32 code.length + 2 ≤ available ↔
      code.length + 2 ≤ available.toNat := by
    rw [BitVec.le_def, total]
  rw [total]
  by_cases accepted : area.address % 8 = 0 ∧ BitVec.ofNat 32 code.length + 2 ≤ available
  · rw [if_pos accepted, ec_copy_blob_some held accepted.1 (enough.mp accepted.2) room]
  · rw [if_neg accepted, ec_copy_blob_refused held fun h => accepted ⟨h.1, enough.mpr h.2⟩]

theorem blobAt_sample : BlobAt sample 76 [10, 0x1234, 30] where
  magic := by decide
  blob_offset := ⟨76, by decide, by decide, rfl⟩
  blob_magic := by decide
  size := ⟨3, by decide, rfl⟩
  instrs := eq_some_of_getElem? (by decide)
  addressed := by decide

theorem ec_copy_blob_eq_sample :
    ∃ n, (∀ old, ec_copy_blob none sample (some old) = some (true, none, some n)) ∧
      n.toNat = (blobWords [10, 0x1234, 30]).length ∧
      ∀ (area : WordArea) (available : BitVec 32), available.toNat ≤ area.words.length →
        ec_copy_blob (some area) sample (some available) = some (
          if area.address % 8 = 0 ∧ n ≤ available then
            (true, some ⟨area.address, blobWords [10, 0x1234, 30] ++ area.words.drop n.toNat⟩,
              some available)
          else (false, some area, some available)) :=
  ec_copy_blob_eq blobAt_sample

end Blob

/-! ## Tables -/

section Tables

variable {mem mem' : Bytes} {p p' : ℕ}

/-- What lies behind a pointer in one memory lies behind a pointer in another. -/
def Behind (mem : Bytes) (p : ℕ) (mem' : Bytes) (p' : ℕ) : Prop :=
  ∀ i b, mem[p + i]? = some b → mem'[p' + i]? = some b

namespace Behind

variable (copied : Behind mem p mem' p')

include copied

theorem entry {x : ℕ} {w : ECFileEntry} (h : entryAt mem (p + x) = some w) :
    entryAt mem' (p' + x) = some w := by
  rw [entryAt] at h ⊢
  simp only [Option.bind_eq_bind, Option.bind_eq_some_iff] at h
  obtain ⟨b0, h0, b1, h1, b2, h2, b3, h3, value⟩ := h
  rw [Nat.add_assoc] at h1 h2 h3
  simp only [Nat.add_assoc, copied _ _ h0, copied _ _ h1, copied _ _ h2, copied _ _ h3, value,
    Option.bind_eq_bind, Option.bind_some]

theorem string {x : ℕ} {s : Bytes} (h : StringAt mem (p + x) s) : StringAt mem' (p' + x) s := by
  obtain ⟨chars, stop⟩ := h
  rw [Nat.add_assoc] at stop
  refine ⟨fun i b hi => ?_, ?_⟩
  · have here := chars i b hi
    rw [Nat.add_assoc] at here ⊢
    exact copied _ _ here
  · rw [Nat.add_assoc]
    exact copied _ _ stop

theorem table {stride : BitVec 32} {list : ℕ} {es : List Entry} (h : TableAt stride list mem p es) :
    TableAt stride list mem' p' es := by
  obtain ⟨⟨n, size, length⟩, entries⟩ := h
  refine ⟨⟨n, copied.entry (x := 0) size, length⟩, fun i e he => ?_⟩
  obtain ⟨⟨o, pointer, string⟩, ⟨k, num, count⟩, ⟨o', offset, aligned, listed⟩⟩ := entries i e he
  refine ⟨⟨o, copied.entry pointer, copied.string string⟩, ⟨k, copied.entry num, count⟩,
    ⟨o', copied.entry offset, aligned, fun k w hk => ?_⟩⟩
  have here := listed k w hk
  rw [Nat.add_assoc] at here ⊢
  exact copied.entry here

theorem patchTable {patches : List Patch} (h : PatchTableAt mem p patches) :
    PatchTableAt mem' p' patches :=
  ⟨copied.table h.table, fun i q hq => copied.entry (h.mask i q hq)⟩

end Behind

/-- A copy of a table has what lies between its pointer and the end of its part. -/
theorem behind_of_copyTable {binary : Bytes} {offset stop : ECFileEntry} {area copy : TableArea}
    {available : BitVec 32} {size : Option (BitVec 32)}
    (h : copyTable binary offset stop (some area) (some available) =
      some (true, some copy, size)) :
    Behind (binary.take stop.toNat) offset.toNat copy.bytes 0 := by
  intro i b hb
  rw [List.getElem?_take] at hb
  obtain ⟨inside, hb⟩ := Option.ite_none_right_eq_some.mp hb
  have part : (stop - offset).toNat = stop.toNat - offset.toNat :=
    BitVec.toNat_sub_of_le (by rw [BitVec.le_def]; omega)
  rw [copyTable] at h
  obtain ⟨-, h⟩ := (ite_eq_iff.mp h).resolve_left fun wrong => by cases wrong.2
  obtain ⟨ragged, h⟩ := (ite_eq_iff.mp h).resolve_left fun wrong => by cases wrong.2
  obtain ⟨-, h⟩ := (ite_eq_iff.mp h).resolve_left fun wrong => by cases wrong.2
  obtain ⟨-, h⟩ := (ite_eq_iff.mp h).resolve_left fun wrong => by cases wrong.2
  have whole : ((stop - offset) / 4 * 4).toNat = stop.toNat - offset.toNat := by
    have rest : (stop - offset).toNat % 4 = 0 := by
      have zero := congrArg BitVec.toNat (not_not.mp ragged)
      rwa [BitVec.toNat_umod] at zero
    rw [BitVec.toNat_mul, BitVec.toNat_udiv, part]
    rw [part] at rest
    change (stop.toNat - offset.toNat) / 4 * 4 % 2 ^ 32 = _
    omega
  simp only [Option.bind_eq_bind, Option.bind_eq_some_iff] at h
  obtain ⟨source, read, bytes, stored, result⟩ := h
  cases result
  rw [readBytes, mapM_range_eq_some_iff, whole] at read
  rw [memcpy] at stored
  obtain ⟨fits, same⟩ := Option.ite_none_right_eq_some.mp stored
  cases same
  rw [Nat.zero_add, List.getElem?_append_left (by omega), ← read.2 i (by omega)]
  exact hb

/-- The fields of the header behind the magic number. -/
structure Header where
  reloc_table_offset : ECFileEntry
  patch_offset : ECFileEntry
  debug_offset : ECFileEntry
  blob_offset : ECFileEntry

namespace Header

/-- Where the relocation table ends. -/
def relocStop (h : Header) : ECFileEntry :=
  if h.patch_offset ≠ 0 then h.patch_offset
  else if h.debug_offset ≠ 0 then h.debug_offset
  else h.blob_offset

/-- Where the patch table ends. -/
def patchStop (h : Header) : ECFileEntry :=
  if h.debug_offset ≠ 0 then h.debug_offset else h.blob_offset

end Header

structure HeaderAt (binary : Bytes) (h : Header) : Prop where
  magic : entryAt binary 0 = some ECASM_BINARY_MAGIC
  reloc_table_offset : entryAt binary 4 = some h.reloc_table_offset
  patch_offset : entryAt binary 8 = some h.patch_offset
  debug_offset : entryAt binary 12 = some h.debug_offset
  blob_offset : entryAt binary 16 = some h.blob_offset

section Copies

variable {binary : Bytes} {h : Header} (header : HeaderAt binary h)

include header

theorem ec_copy_reloc_table_eq (area : Option TableArea) (size : Option (BitVec 32)) :
    ec_copy_reloc_table binary area size =
      copyTable binary h.reloc_table_offset h.relocStop area size := by
  simp only [ec_copy_reloc_table, header.magic, header.reloc_table_offset, header.patch_offset,
    header.debug_offset, header.blob_offset, Option.bind_eq_bind, Option.bind_some, ne_eq,
    not_true_eq_false, if_false, Header.relocStop]

theorem ec_copy_patch_table_eq (area : Option TableArea) (size : Option (BitVec 32)) :
    ec_copy_patch_table binary area size =
      copyTable binary h.patch_offset h.patchStop area size := by
  simp only [ec_copy_patch_table, header.magic, header.patch_offset, header.debug_offset,
    header.blob_offset, Option.bind_eq_bind, Option.bind_some, ne_eq, not_true_eq_false, if_false,
    Header.patchStop]

theorem ec_get_reloc_table_ptr_eq (present : h.reloc_table_offset ≠ 0) :
    ec_get_reloc_table_ptr binary = some (some h.reloc_table_offset.toNat) := by
  simp only [ec_get_reloc_table_ptr, getTablePtr, header.magic, header.reloc_table_offset,
    Option.bind_eq_bind, Option.bind_some, ne_eq, not_true_eq_false, if_false, if_neg present]

theorem ec_get_patch_table_ptr_eq (present : h.patch_offset ≠ 0) :
    ec_get_patch_table_ptr binary = some (some h.patch_offset.toNat) := by
  simp only [ec_get_patch_table_ptr, getTablePtr, header.magic, header.patch_offset,
    Option.bind_eq_bind, Option.bind_some, ne_eq, not_true_eq_false, if_false, if_neg present]

variable {size : ℕ} {link : Linkage size} {code : List ECInstr}
variable {relocArea relocCopy patchArea patchCopy : TableArea}
variable {relocRoom patchRoom : BitVec 32} {relocSize patchSize : Option (BitVec 32)}

/-- Tables that lie in their parts of a binary can be copied: every sequence of calls has the
same results and leaves the same blob with the copies as with the tables in the binary. -/
theorem calls_copied (relocs : RelocTableAt (binary.take h.relocStop.toNat)
      h.reloc_table_offset.toNat link.relocs)
    (patches : PatchTableAt (binary.take h.patchStop.toNat) h.patch_offset.toNat link.patches)
    (relocCopied : ec_copy_reloc_table binary (some relocArea) (some relocRoom) =
      some (true, some relocCopy, relocSize))
    (patchCopied : ec_copy_patch_table binary (some patchArea) (some patchRoom) =
      some (true, some patchCopy, patchSize))
    (fits : code.length = size) (cs : List Call) :
    ∃ reloc_table_ptr patch_table_ptr,
      ec_get_reloc_table_ptr binary = some reloc_table_ptr ∧
      ec_get_patch_table_ptr binary = some patch_table_ptr ∧
      link.calls ⟨relocCopy.bytes, some 0, patchCopy.bytes, some 0⟩ cs ⟨code, 0⟩ =
        link.calls ⟨binary, reloc_table_ptr, binary, patch_table_ptr⟩ cs ⟨code, 0⟩ ∧
      link.calls ⟨relocCopy.bytes, some 0, patchCopy.bytes, some 0⟩ cs ⟨code, 0⟩ ≠ none := by
  rw [ec_copy_reloc_table_eq header] at relocCopied
  rw [ec_copy_patch_table_eq header] at patchCopied
  have presentReloc : h.reloc_table_offset ≠ 0 := fun zero => by
    rw [copyTable, if_pos zero] at relocCopied
    cases relocCopied
  have presentPatch : h.patch_offset ≠ 0 := fun zero => by
    rw [copyTable, if_pos zero] at patchCopied
    cases patchCopied
  have whole (p stop : ℕ) : Behind (binary.take stop) p binary p := by
    intro i b hb
    rw [List.getElem?_take] at hb
    exact (Option.ite_none_right_eq_some.mp hb).2
  have copies : link.Holds ⟨relocCopy.bytes, some 0, patchCopy.bytes, some 0⟩ 0 0 :=
    ⟨rfl, (behind_of_copyTable relocCopied).table relocs, rfl,
      (behind_of_copyTable patchCopied).patchTable patches⟩
  have inPlace : link.Holds ⟨binary, some h.reloc_table_offset.toNat, binary,
      some h.patch_offset.toNat⟩ h.reloc_table_offset.toNat h.patch_offset.toNat :=
    ⟨rfl, (whole _ _).table relocs, rfl, (whole _ _).patchTable patches⟩
  refine ⟨_, _, ec_get_reloc_table_ptr_eq header presentReloc,
    ec_get_patch_table_ptr_eq header presentPatch, ?_, ?_⟩
  · rw [Linkage.loaded_initial link, Linkage.calls_loaded copies fits,
      Linkage.calls_loaded inPlace fits]
  · rw [Linkage.loaded_initial link, Linkage.calls_loaded copies fits]
    exact Option.some_ne_none _

end Copies

theorem header_sample : HeaderAt sample ⟨20, 48, 0, 76⟩ :=
  ⟨by decide, by decide, by decide, by decide, by decide⟩

/-- The tables of the small binary, copied to memory of their size. -/
theorem calls_copied_sample :
    ∃ reloc_table_ptr patch_table_ptr,
      ec_get_reloc_table_ptr sample = some reloc_table_ptr ∧
      ec_get_patch_table_ptr sample = some patch_table_ptr ∧
      sampleLinkage.calls ⟨(sample.take 48).drop 20, some 0, (sample.take 76).drop 48, some 0⟩
          sampleCalls ⟨sampleBlob, 0⟩ =
        sampleLinkage.calls ⟨sample, reloc_table_ptr, sample, patch_table_ptr⟩
          sampleCalls ⟨sampleBlob, 0⟩ ∧
      sampleLinkage.calls ⟨(sample.take 48).drop 20, some 0, (sample.take 76).drop 48, some 0⟩
        sampleCalls ⟨sampleBlob, 0⟩ ≠ none := by
  have relocCopied : ec_copy_reloc_table sample (some ⟨0, List.replicate 28 0⟩) (some 7) =
      some (true, some ⟨0, (sample.take 48).drop 20⟩, some 7) := by rfl
  have patchCopied : ec_copy_patch_table sample (some ⟨4, List.replicate 28 0⟩) (some 7) =
      some (true, some ⟨4, (sample.take 76).drop 48⟩, some 7) := by rfl
  exact calls_copied header_sample sample_relocs sample_patches relocCopied patchCopied rfl _

end Tables
end PeopleDetection.EpochController
