import PeopleDetection.EpochController.Binary

/-!
# The blob of the network

`network_ecblobs.h` has the binary of the first blob. Its relocation table has one entry: the
image buffer, whose address stands in two instructions. The blob is copied when the network
is initialized, and relocated before each inference to the buffer that was set last. The
instructions are a parameter.
-/

namespace PeopleDetection.EpochController

open Library

/-! ## The binary -/

/-- The words of `_ec_blob_Default_1_binary` in front of the blob: the header, and the
relocation table. -/
def Default_1_tables : List (BitVec 32) :=
  [0xecbf0030, 0x00000018, 0x00000000, 0x00000000, 0x00000048, 0x00000000,
    0x00000001, 0x00000018, 0x00000002, 0x00000010, 0x00000012, 0x00000020,
    0x6573755f, 0x6f695f72, 0x706e695f, 0x305f7475, 0x00000000, 0x00000000]

/-- The instructions of `_ec_blob_Default_1`. -/
abbrev Instrs : Type := { code : List ECInstr // code.length = 0x2d50 }

def ec_blob_Default_1_binary (code : Instrs) : Bytes :=
  bytesOf (Default_1_tables ++ blobWords code.1)

abbrev ec_blob_Default_1_user_io_input_0_RELOC_IDX : BitVec 32 := 0

/-- `_ec_blob_Default_1_reloc_table_ptr`. -/
abbrev ec_blob_Default_1_reloc_table_ptr : ℕ := 24

/-- `_user_io_input_0`. -/
def user_io_input_0 : Identifier :=
  ⟨[95, 117, 115, 101, 114, 95, 105, 111, 95, 105, 110, 112, 117, 116, 95, 48], by decide⟩

/-- The relocation of the image buffer. -/
def Default_1 : Linkage 11602 where
  relocs := [⟨user_io_input_0, [0x12, 0x20]⟩]
  patches := []
  relocInside := by decide
  patchInside := by decide
  apart := by decide
  exclusive i k p q hp := by cases hp

section Binary

variable (code : Instrs)

theorem entryAt_Default_1 (i : ℕ) :
    entryAt (ec_blob_Default_1_binary code) (4 * i) = (Default_1_tables ++ blobWords code.1)[i]? :=
  entryAt_bytesOf _ i

theorem blobAt_Default_1 : BlobAt (ec_blob_Default_1_binary code) 72 code.1 where
  magic := entryAt_Default_1 code 0
  blob_offset := ⟨0x48, entryAt_Default_1 code 4, by decide, rfl⟩
  blob_magic := entryAt_Default_1 code 18
  size := ⟨0x2d50, by
    rw [show 72 + 4 = 4 * 19 from rfl, entryAt_Default_1, blobWords, code.2]
    rfl, by rw [code.2]; rfl⟩
  instrs i w h := by
    rw [show 72 + 8 + 4 * i = 4 * (20 + i) by omega, entryAt_Default_1,
      List.getElem?_append_right (by change 18 ≤ 20 + i; omega)]
    have position : 20 + i - Default_1_tables.length = i + 2 := by
      change 20 + i - 18 = i + 2
      omega
    rw [position]
    exact h
  addressed := by
    rw [code.2]
    decide

/-- A byte in front of the blob. -/
theorem getElem?_Default_1 {i : ℕ} (inside : i < 72) :
    (ec_blob_Default_1_binary code)[i]? = (bytesOf Default_1_tables)[i]? := by
  rw [ec_blob_Default_1_binary, bytesOf, List.flatMap_append]
  exact List.getElem?_append_left inside

theorem relocTableAt_Default_1 :
    RelocTableAt (ec_blob_Default_1_binary code) ec_blob_Default_1_reloc_table_ptr
      Default_1.relocs where
  size := ⟨1, entryAt_Default_1 code 6, rfl⟩
  entry i e he := by
    obtain rfl : i = 0 := by
      have inside := (List.getElem?_eq_some_iff.mp he).1
      exact Nat.lt_one_iff.mp inside
    cases he
    refine ⟨⟨0x18, entryAt_Default_1 code 7, ?_⟩, ⟨2, entryAt_Default_1 code 8, rfl⟩,
      ⟨0x10, entryAt_Default_1 code 9, by decide, ?_⟩⟩
    · refine ⟨eq_some_of_getElem? ?_, ?_⟩
      · intro i hi
        have read : ∀ i < user_io_input_0.1.length,
            (bytesOf Default_1_tables)[24 + 0x18 + i]? = user_io_input_0.1[i]? := by decide
        have inside : 24 + 24 + i < 72 := by
          change i < 16 at hi
          omega
        exact (getElem?_Default_1 code inside).trans (read i hi)
      · exact getElem?_Default_1 code (by decide)
    · apply eq_some_of_getElem?
      intro k hk
      obtain rfl | rfl : k = 0 ∨ k = 1 := by
        change k < 2 at hk
        omega
      · exact entryAt_Default_1 code 10
      · exact entryAt_Default_1 code 11

/-- The blob, relocated to a buffer. -/
def relocatedBlob (code : Instrs) (buffer : ECAddr) : List ECInstr :=
  (blobWords code.1).mapIdx fun i w => if i = 20 ∨ i = 34 then w + buffer else w

theorem length_blobWords : (blobWords code.1).length = 11602 := by
  rw [blobWords, List.length_cons, List.length_cons, code.2]

theorem blobOf_Default_1 (s : Settings) :
    Default_1.blobOf (blobWords code.1) s = relocatedBlob code (s.bases 0) := by
  apply List.ext_getElem?
  intro j
  have unpatched : Default_1.patchedWord s.values j = id :=
    funext fun w => Default_1.patchedWord_eq_self (fun _ _ hp => by cases hp) w
  have base : baseAt (Default_1.relocs.map Entry.slots) s.bases j =
      if j = 20 ∨ j = 34 then s.bases 0 else 0 := by
    have slots : Default_1.relocs.map Entry.slots = [[20, 34]] := by decide
    rw [baseAt, slots]
    simp only [List.length_singleton, Finset.range_one, Finset.sum_singleton, List.getD_cons_zero]
    by_cases first : j = 20
    · subst first
      simp
    · by_cases second : j = 34
      · subst second
        simp
      · simp [first, second, Ne.symm first, Ne.symm second]
  rw [Linkage.getElem?_blobOf, unpatched, Option.map_id, id, getElem?_relocated, base,
    relocatedBlob, List.getElem?_mapIdx]
  congr 1
  funext w
  split
  · rfl
  · exact add_zero w

end Binary

/-! ## The functions of the network -/

/-- The variables `_ec_blob_Default_1`, `_ec_blob_Default_1_prev_base_addrs` and
`_mem_pool__user_io_input_0_Default`. -/
@[ext] structure EcNetwork where
  ec_blob_Default_1 : WordArea
  prev_base_addr : ECAddr
  user_io_input_0 : ECAddr

def LL_ATON_EC_Network_Init_Default (code : Instrs) (s : EcNetwork) : Option (Bool × EcNetwork) :=
  (ec_copy_blob (some s.ec_blob_Default_1) (ec_blob_Default_1_binary code) (some 11602)).map
    fun r => (r.1,
      { s with prev_base_addr := 0, ec_blob_Default_1 := r.2.1.getD s.ec_blob_Default_1 })

def LL_ATON_EC_Inference_Init_Default (code : Instrs) (s : EcNetwork) : Option (Bool × EcNetwork) :=
  (ec_reloc (ec_blob_Default_1_binary code) (some ec_blob_Default_1_reloc_table_ptr)
    s.ec_blob_Default_1.words ec_blob_Default_1_user_io_input_0_RELOC_IDX s.user_io_input_0
    s.prev_base_addr).map
    fun r => (r.1,
      { s with prev_base_addr := r.2.2
               ec_blob_Default_1 := { s.ec_blob_Default_1 with words := r.2.1 } })

inductive LL_ATON_User_IO_Result_t where
  | LL_ATON_User_IO_NOERROR
  | LL_ATON_User_IO_WRONG_ALIGN
  | LL_ATON_User_IO_WRONG_SIZE
  | LL_ATON_User_IO_WRONG_INDEX
  deriving DecidableEq

open LL_ATON_User_IO_Result_t in
def LL_ATON_Set_User_Input_Buffer_Default (num buffer size : BitVec 32) (s : EcNetwork) :
    LL_ATON_User_IO_Result_t × EcNetwork :=
  if num = 0 then
    if buffer % 32 ≠ 0 then (LL_ATON_User_IO_WRONG_ALIGN, s)
    else if size < 150528 then (LL_ATON_User_IO_WRONG_SIZE, s)
    else (LL_ATON_User_IO_NOERROR, { s with user_io_input_0 := buffer })
  else (LL_ATON_User_IO_WRONG_INDEX, s)

/-- What a program asks of the network. -/
inductive EcCall where
  | networkInit
  | inferenceInit
  | setUserInputBuffer (num buffer size : BitVec 32)

/-- A call that returns, or asserts. -/
def EcNetwork.call (code : Instrs) : EcCall → EcNetwork → Option (Bool × EcNetwork)
  | .networkInit, s => LL_ATON_EC_Network_Init_Default code s
  | .inferenceInit, s => LL_ATON_EC_Inference_Init_Default code s
  | .setUserInputBuffer num buffer size, s =>
      let r := LL_ATON_Set_User_Input_Buffer_Default num buffer size s
      some (decide (r.1 = .LL_ATON_User_IO_NOERROR), r.2)

def EcNetwork.calls (code : Instrs) : List EcCall → EcNetwork → Option (List Bool × EcNetwork)
  | [], s => some ([], s)
  | c :: cs, s => do
      let (ok, s) ← s.call code c
      let (oks, s) ← calls code cs s
      some (ok :: oks, s)

/-! ## What the calls ask for -/

/-- The buffer that the blob is relocated to, and the one that was set last. -/
@[ext] structure Buffers where
  relocated : ECAddr
  input : ECAddr

/-- A buffer that is accepted. -/
def Accepted (num buffer size : BitVec 32) : Prop :=
  num = 0 ∧ buffer % 32 = 0 ∧ 150528 ≤ size

instance (num buffer size : BitVec 32) : Decidable (Accepted num buffer size) :=
  inferInstanceAs (Decidable (_ ∧ _ ∧ _))

def Buffers.call : EcCall → Buffers → Bool × Buffers
  | .networkInit, b => (true, { b with relocated := 0 })
  | .inferenceInit, b => (true, { b with relocated := b.input })
  | .setUserInputBuffer num buffer size, b =>
      if Accepted num buffer size then (true, { b with input := buffer }) else (false, b)

def Buffers.calls : List EcCall → Buffers → List Bool × Buffers
  | [], b => ([], b)
  | c :: cs, b =>
      let (ok, b) := b.call c
      let (oks, b) := calls cs b
      (ok :: oks, b)

/-- The variables of a network that was initialized, with the blob at an address. -/
def Buffers.network (code : Instrs) (address : ℕ) (b : Buffers) : EcNetwork :=
  ⟨⟨address, relocatedBlob code b.relocated⟩, b.relocated, b.input⟩

section Calls

variable (code : Instrs) {address : ℕ}

theorem relocatedBlob_zero : relocatedBlob code 0 = blobWords code.1 := by
  have initial := blobOf_Default_1 code Settings.initial
  rw [Linkage.blobOf_initial] at initial
  exact initial.symm

/-- Initialization copies the blob, whatever was in its place. -/
theorem network_init_eq (aligned : address % 8 = 0) {words : List (BitVec 32)}
    (room : words.length = 11602) (base input : ECAddr) :
    LL_ATON_EC_Network_Init_Default code ⟨⟨address, words⟩, base, input⟩ =
      some (true, Buffers.network code address ⟨0, input⟩) := by
  have size : code.1.length + 2 = 11602 := by rw [code.2]
  have copied : ec_copy_blob (some ⟨address, words⟩) (ec_blob_Default_1_binary code)
      (some 11602) = _ :=
    ec_copy_blob_some (blobAt_Default_1 code) aligned (Nat.le_of_eq size) (Nat.le_of_eq room.symm)
  rw [LL_ATON_EC_Network_Init_Default, copied, Option.map_some, Option.getD_some, size,
    List.drop_of_length_le (Nat.le_of_eq room), List.append_nil, Buffers.network,
    relocatedBlob_zero]

theorem length_relocatedBlob (buffer : ECAddr) : (relocatedBlob code buffer).length = 11602 := by
  rw [relocatedBlob, List.length_mapIdx, length_blobWords]

theorem ec_reloc_Default_1 (buffer base : ECAddr) :
    ec_reloc (ec_blob_Default_1_binary code) (some ec_blob_Default_1_reloc_table_ptr)
        (relocatedBlob code buffer) ec_blob_Default_1_user_io_input_0_RELOC_IDX base buffer =
      some (true, relocatedBlob code base, base) := by
  have reloc := Linkage.ec_reloc_eq (relocTableAt_Default_1 code) (length_blobWords code)
    ⟨fun _ => buffer, fun _ => none⟩ 0 base
  rw [blobOf_Default_1, blobOf_Default_1] at reloc
  exact reloc

/-- Before an inference, the blob is relocated from any buffer to the one that was set. -/
theorem inference_init_eq (b : Buffers) :
    LL_ATON_EC_Inference_Init_Default code (b.network code address) =
      some (true, Buffers.network code address ⟨b.input, b.input⟩) := by
  rw [LL_ATON_EC_Inference_Init_Default]
  simp only [Buffers.network, ec_reloc_Default_1]
  rfl

theorem set_accepted {num buffer size : BitVec 32} (accepted : Accepted num buffer size)
    (s : EcNetwork) :
    LL_ATON_Set_User_Input_Buffer_Default num buffer size s =
      (.LL_ATON_User_IO_NOERROR, { s with user_io_input_0 := buffer }) := by
  obtain ⟨index, align, enough⟩ := accepted
  rw [LL_ATON_Set_User_Input_Buffer_Default, if_pos index, if_neg (not_not.mpr align),
    if_neg (BitVec.not_lt.mpr enough)]

/-- A call that fails leaves the buffer alone. -/
theorem set_refused {num buffer size : BitVec 32} (refused : ¬ Accepted num buffer size)
    (s : EcNetwork) :
    let r := LL_ATON_Set_User_Input_Buffer_Default num buffer size s
    r.1 ≠ .LL_ATON_User_IO_NOERROR ∧ r.2 = s := by
  rw [LL_ATON_Set_User_Input_Buffer_Default]
  by_cases index : num = 0
  · rw [if_pos index]
    by_cases align : buffer % 32 = 0
    · have little : size < 150528 := BitVec.not_le.mp fun enough => refused ⟨index, align, enough⟩
      rw [if_neg (not_not.mpr align), if_pos little]
      exact ⟨nofun, rfl⟩
    · rw [if_pos align]
      exact ⟨nofun, rfl⟩
  · rw [if_neg index]
    exact ⟨nofun, rfl⟩

theorem call_network (aligned : address % 8 = 0) (c : EcCall) (b : Buffers) :
    (b.network code address).call code c =
      some ((b.call c).1, (b.call c).2.network code address) := by
  cases c with
  | networkInit =>
      exact network_init_eq code aligned (length_relocatedBlob code _) b.relocated b.input
  | inferenceInit => exact inference_init_eq code b
  | setUserInputBuffer num buffer size =>
      rw [EcNetwork.call, Buffers.call]
      by_cases accepted : Accepted num buffer size
      · rw [set_accepted accepted, if_pos accepted]
        rfl
      · obtain ⟨refused, same⟩ := set_refused accepted (b.network code address)
        rw [if_neg accepted, same, decide_eq_false refused]

theorem calls_network (aligned : address % 8 = 0) (cs : List EcCall) (b : Buffers) :
    (b.network code address).calls code cs =
      some ((b.calls cs).1, (b.calls cs).2.network code address) := by
  induction cs generalizing b with
  | nil => rfl
  | cons c cs ih =>
      rw [EcNetwork.calls, call_network code aligned]
      simp only [Option.bind_eq_bind, Option.bind_some, ih, Buffers.calls]

/-- The buffer that a call sets. -/
def acceptedBuffer : EcCall → Option ECAddr
  | .setUserInputBuffer num buffer size => if Accepted num buffer size then some buffer else none
  | _ => none

/-- The input buffer is the last one that was accepted. -/
theorem input_calls (cs : List EcCall) (b : Buffers) :
    (b.calls cs).2.input = (cs.filterMap acceptedBuffer).getLastD b.input := by
  induction cs generalizing b with
  | nil => rfl
  | cons c cs ih =>
      have first : (b.call c).2.input = (acceptedBuffer c).getD b.input := by
        cases c with
        | networkInit => rfl
        | inferenceInit => rfl
        | setUserInputBuffer num buffer size =>
            rw [Buffers.call, acceptedBuffer]
            split <;> rfl
      rw [Buffers.calls, ih, first, List.filterMap_cons]
      cases acceptedBuffer c with
      | none => rfl
      | some buffer => rw [List.getLastD_cons, Option.getD_some]

/-- After the network was initialized in any memory, and whatever was called since, an inference
finds the blob relocated to the last buffer that was accepted. No call accesses memory outside
of the binary and the blob. -/
theorem inference_relocated (aligned : address % 8 = 0) {words : List (BitVec 32)}
    (room : words.length = 11602) (base input : ECAddr) (cs : List EcCall) :
    ∃ oks, EcNetwork.calls code (.networkInit :: (cs ++ [.inferenceInit]))
        ⟨⟨address, words⟩, base, input⟩ =
      some (oks, ⟨⟨address, relocatedBlob code ((cs.filterMap acceptedBuffer).getLastD input)⟩,
        (cs.filterMap acceptedBuffer).getLastD input,
        (cs.filterMap acceptedBuffer).getLastD input⟩) := by
  have last (cs : List EcCall) (b : Buffers) : (b.calls (cs ++ [.inferenceInit])).2 =
      ⟨(b.calls cs).2.input, (b.calls cs).2.input⟩ := by
    induction cs generalizing b with
    | nil => rfl
    | cons c cs ih => exact ih _
  refine ⟨true :: (Buffers.calls (cs ++ [.inferenceInit]) ⟨0, input⟩).1, ?_⟩
  have init : EcNetwork.call code .networkInit ⟨⟨address, words⟩, base, input⟩ =
      some (true, Buffers.network code address ⟨0, input⟩) :=
    network_init_eq code aligned room base input
  rw [EcNetwork.calls, init]
  simp only [Option.bind_eq_bind, Option.bind_some, calls_network code aligned, last, input_calls]
  rfl

def sampleInstrs : Instrs := ⟨List.replicate 0x2d50 7, List.length_replicate⟩

/-- Two buffers are offered, the second one without alignment. -/
theorem inference_relocated_sample :
    ∃ oks, EcNetwork.calls sampleInstrs
        [.networkInit, .inferenceInit, .setUserInputBuffer 0 0x34300000 150528,
          .setUserInputBuffer 0 0x34300010 150528, .inferenceInit]
        ⟨⟨64, List.replicate 11602 9⟩, 1, 2⟩ =
      some (oks, ⟨⟨64, relocatedBlob sampleInstrs 0x34300000⟩, 0x34300000, 0x34300000⟩) :=
  inference_relocated _ (by decide) List.length_replicate 1 2
    [.inferenceInit, .setUserInputBuffer 0 0x34300000 150528,
      .setUserInputBuffer 0 0x34300010 150528]

end Calls
end PeopleDetection.EpochController
