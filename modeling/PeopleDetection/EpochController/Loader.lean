import PeopleDetection.CString
import PeopleDetection.Library.Edits

/-!
# The loader of the epoch controller

A binary of the epoch controller holds a blob of instructions, and may hold a relocation
table and a patch table. The loader finds the parts of a binary, copies them, and edits
the words of a blob that a table lists.

A pointer into memory of bytes is an offset from its start, and `none` is the null pointer.
An access outside of the memory has no result.
-/

namespace PeopleDetection.EpochController

open Library

/-- `ECInstr`, `ECAddr` and `ECFileEntry` are `uint32_t`. -/
abbrev ECInstr : Type := BitVec 32
abbrev ECAddr : Type := BitVec 32
abbrev ECFileEntry : Type := BitVec 32

abbrev ECASM_BINARY_MAGIC : ECFileEntry := 0xECBF0030#32
abbrev ECASM_BLOB_MAGIC : ECInstr := 0xCA057A7A#32

/-! ## Memory -/

section Memory

variable (mem : Bytes)

/-- `*(ECFileEntry *)ptr`, with the least significant byte first. -/
def entryAt (ptr : Nat) : Option ECFileEntry := do
  let b0 ← mem[ptr]?
  let b1 ← mem[ptr + 1]?
  let b2 ← mem[ptr + 2]?
  let b3 ← mem[ptr + 3]?
  some (b3.toBitVec ++ b2.toBitVec ++ b1.toBitVec ++ b0.toBitVec)

/-- `strcmp(id, p) == 0`. -/
def strcmpEq : Bytes → Nat → Option Bool
  | [], p => mem[p]?.map (· == NUL)
  | b :: id, p => mem[p]?.bind fun c => if c = b then strcmpEq id (p + 1) else some false

/-- `table_ptr + stride * idx + column`, in entries. -/
def column (stride : BitVec 32) (table_ptr : Nat) (idx : BitVec 32) (column : Nat) : Nat :=
  table_ptr + 4 * ((stride * idx).toNat + column)

/-- The body of the loops over the words of a blob. The first instruction follows the magic
number and the size. -/
def editListed (f : ECInstr → ECInstr) (ptr : Nat) (blob : List ECInstr) (i : Nat) :
    Option (List ECInstr) :=
  (entryAt mem (ptr + 4 * i)).bind fun offset => editAt f blob (offset + 2).toNat

/-- The loop over the entries of a table that looks for an identifier. -/
def findId (stride : BitVec 32) (table_ptr : Nat) (id : Bytes) :
    List Nat → Option (Option (BitVec 32))
  | [] => some none
  | n :: ns => do
      let offset ← entryAt mem (column stride table_ptr (BitVec.ofNat 32 n) 1)
      let same ← strcmpEq mem id (table_ptr + offset.toNat)
      if same then some (some (BitVec.ofNat 32 n)) else findId stride table_ptr id ns

end Memory

/-- Memory for words, at an address. -/
structure WordArea where
  address : Nat
  words : List (BitVec 32)

/-- Memory for a table, at an address. -/
structure TableArea where
  address : Nat
  bytes : Bytes

/-- `memcpy`, to the beginning of a memory area. -/
def memcpy {α : Type} (source target : List α) : Option (List α) :=
  if source.length ≤ target.length then some (source ++ target.drop source.length) else none

/-- Bytes that are read from a memory. -/
def readBytes (mem : Bytes) (ptr len : Nat) : Option Bytes :=
  (List.range len).mapM fun i => mem[ptr + i]?

def readWords (mem : Bytes) (ptr len : Nat) : Option (List (BitVec 32)) :=
  (List.range len).mapM fun i => entryAt mem (ptr + 4 * i)

/-! ## The blob -/

def ec_get_blob_ptr (binary : Bytes) : Option (Option Nat) := do
  let magic ← entryAt binary 0
  if magic ≠ ECASM_BINARY_MAGIC then some none
  else
    let blob_offset ← entryAt binary 16
    if blob_offset = 0 then some none else some (some blob_offset.toNat)

/-- The result, and the two variables behind the pointers `blob` and `blob_size`. -/
def ec_copy_blob (blob : Option WordArea) (binary : Bytes) (blob_size : Option (BitVec 32)) :
    Option (Bool × Option WordArea × Option (BitVec 32)) := do
  match ← ec_get_blob_ptr binary with
  | none => some (false, blob, blob_size)
  | some ptr =>
      let blob_magic ← entryAt binary ptr
      if blob_magic ≠ ECASM_BLOB_MAGIC then some (false, blob, blob_size)
      else
        let size ← entryAt binary (ptr + 4)
        match blob with
        | none => some (true, none, blob_size.map fun _ => size + 2)
        | some area =>
            if area.address % 8 ≠ 0 then some (false, blob, blob_size)
            else
              match blob_size with
              | none => some (false, blob, none)
              | some available =>
                  if available < size + 2 then some (false, blob, blob_size)
                  else
                    let code ← readWords binary (ptr + 8) ((size * 4).toNat / 4)
                    let words ← memcpy (blob_magic :: size :: code) area.words
                    some (true, some { area with words := words }, blob_size)

/-! ## Tables -/

section Tables

variable (binary : Bytes)

/-- The first entry of a table. -/
def getNum (mem : Bytes) (table_ptr : Option Nat) : Option ECFileEntry :=
  match table_ptr with
  | none => some 0
  | some ptr => entryAt mem ptr

/-- The pointer to the identifier of an entry. -/
def getId (stride : BitVec 32) (mem : Bytes) (table_ptr : Option Nat) (idx : BitVec 32) :
    Option (Option Nat) :=
  match table_ptr with
  | none => some none
  | some ptr => do
      let size ← entryAt mem ptr
      if idx < size then
        let offset ← entryAt mem (column stride ptr idx 1)
        some (some (ptr + offset.toNat))
      else some none

/-- A pointer to a table, from a field of the header. -/
def getTablePtr (field : Nat) : Option (Option Nat) := do
  let magic ← entryAt binary 0
  if magic ≠ ECASM_BINARY_MAGIC then some none
  else
    let offset ← entryAt binary field
    some (if offset = 0 then none else some offset.toNat)

/-- Copy a table that ends at `stop`. -/
def copyTable (offset stop : ECFileEntry) (table : Option TableArea)
    (table_size : Option (BitVec 32)) : Option (Bool × Option TableArea × Option (BitVec 32)) :=
  if offset = 0 then some (false, table, table_size)
  else if (stop - offset) % 4 ≠ 0 then some (false, table, table_size)
  else
    let size := (stop - offset) / 4
    match table with
    | none => some (true, none, table_size.map fun _ => size)
    | some area =>
        if area.address % 4 ≠ 0 then some (false, table, table_size)
        else
          match table_size with
          | none => some (false, table, none)
          | some available =>
              if available < size then some (false, table, table_size)
              else do
                let source ← readBytes binary offset.toNat (size * 4).toNat
                let bytes ← memcpy source area.bytes
                some (true, some { area with bytes := bytes }, table_size)

def ec_copy_reloc_table (reloc_table : Option TableArea) (reloc_table_size : Option (BitVec 32)) :
    Option (Bool × Option TableArea × Option (BitVec 32)) := do
  let magic ← entryAt binary 0
  if magic ≠ ECASM_BINARY_MAGIC then some (false, reloc_table, reloc_table_size)
  else
    let reloc_table_offset ← entryAt binary 4
    let patch_offset ← entryAt binary 8
    let debug_offset ← entryAt binary 12
    let blob_offset ← entryAt binary 16
    let stop :=
      if patch_offset ≠ 0 then patch_offset
      else if debug_offset ≠ 0 then debug_offset
      else blob_offset
    copyTable binary reloc_table_offset stop reloc_table reloc_table_size

def ec_get_reloc_table_ptr : Option (Option Nat) := getTablePtr binary 4

def ec_get_num_relocs : Bytes → Option Nat → Option ECFileEntry := getNum

def ec_get_reloc_id : Bytes → Option Nat → BitVec 32 → Option (Option Nat) := getId 3

def ec_copy_patch_table (patch_table : Option TableArea) (patch_table_size : Option (BitVec 32)) :
    Option (Bool × Option TableArea × Option (BitVec 32)) := do
  let magic ← entryAt binary 0
  if magic ≠ ECASM_BINARY_MAGIC then some (false, patch_table, patch_table_size)
  else
    let patch_table_offset ← entryAt binary 8
    let debug_offset ← entryAt binary 12
    let blob_offset ← entryAt binary 16
    let stop := if debug_offset ≠ 0 then debug_offset else blob_offset
    copyTable binary patch_table_offset stop patch_table patch_table_size

def ec_get_patch_table_ptr : Option (Option Nat) := getTablePtr binary 8

def ec_get_num_patches : Bytes → Option Nat → Option ECFileEntry := getNum

def ec_get_patch_id : Bytes → Option Nat → BitVec 32 → Option (Option Nat) := getId 4

def ec_get_patch_mask (mem : Bytes) (patch_table_ptr : Option Nat) (idx : BitVec 32) :
    Option (BitVec 32) :=
  match patch_table_ptr with
  | none => some 0
  | some ptr => do
      let size ← entryAt mem ptr
      if idx < size then entryAt mem (column 4 ptr idx 2) else some 0

end Tables

/-! ## Relocations -/

section Relocations

variable (mem : Bytes) (reloc_table_ptr : Option Nat) (blob : List ECInstr)

/-- Relocate the words of an entry. The results are the blob and `*prev_base`. -/
def relocEntry (ptr : Nat) (idx : BitVec 32) (base prev_base : ECAddr) :
    Option (Bool × List ECInstr × ECAddr) := do
  let num ← entryAt mem (column 3 ptr idx 2)
  let offset ← entryAt mem (column 3 ptr idx 3)
  if offset % 4 ≠ 0 then some (false, blob, prev_base)
  else
    let blob ← (List.range num.toNat).foldlM
      (editListed mem (· + (base - prev_base)) (ptr + offset.toNat)) blob
    some (true, blob, base)

def ec_reloc (idx : BitVec 32) (base prev_base : ECAddr) :
    Option (Bool × List ECInstr × ECAddr) :=
  match reloc_table_ptr with
  | none => some (false, blob, prev_base)
  | some ptr =>
      if base = prev_base then some (true, blob, prev_base)
      else do
        let size ← entryAt mem ptr
        if idx < size then relocEntry mem blob ptr idx base prev_base
        else some (true, blob, base)

def ec_reloc_by_id (id : Bytes) (base prev_base : ECAddr) :
    Option (Bool × List ECInstr × ECAddr) :=
  match reloc_table_ptr with
  | none => some (false, blob, prev_base)
  | some ptr =>
      if base = prev_base then some (true, blob, prev_base)
      else do
        let size ← entryAt mem ptr
        match ← findId mem 3 ptr id (List.range size.toNat) with
        | some n => relocEntry mem blob ptr n base prev_base
        | none => some (false, blob, prev_base)

end Relocations

/-! ## Patches -/

section Patches

variable (mem : Bytes) (patch_table_ptr : Option Nat) (blob : List ECInstr)

/-- `blob[…] &= ~mask` and `blob[…] |= (value & mask)`. -/
def patchWord (mask value : BitVec 32) (w : ECInstr) : ECInstr :=
  (w &&& ~~~mask) ||| (value &&& mask)

/-- Patch the words of an entry. -/
def patchEntry (ptr : Nat) (idx : BitVec 32) (value : BitVec 32) :
    Option (Bool × List ECInstr) := do
  let mask ← entryAt mem (column 4 ptr idx 2)
  let num ← entryAt mem (column 4 ptr idx 3)
  let offset ← entryAt mem (column 4 ptr idx 4)
  if offset % 4 ≠ 0 then some (false, blob)
  else
    let blob ← (List.range num.toNat).foldlM
      (editListed mem (patchWord mask value) (ptr + offset.toNat)) blob
    some (true, blob)

def ec_patch (idx value : BitVec 32) : Option (Bool × List ECInstr) :=
  match patch_table_ptr with
  | none => some (false, blob)
  | some ptr => do
      let size ← entryAt mem ptr
      if idx < size then patchEntry mem blob ptr idx value else some (true, blob)

def ec_patch_by_id (id : Bytes) (value : BitVec 32) : Option (Bool × List ECInstr) :=
  match patch_table_ptr with
  | none => some (false, blob)
  | some ptr => do
      let size ← entryAt mem ptr
      match ← findId mem 4 ptr id (List.range size.toNat) with
      | some n => patchEntry mem blob ptr n value
      | none => some (false, blob)

end Patches
end PeopleDetection.EpochController
