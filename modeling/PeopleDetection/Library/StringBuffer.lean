import Mathlib.Data.List.DropRight
import Mathlib.Logic.Function.Basic

/-!
# Strings in a buffer

A buffer of `cap` cells holds strings that end with the terminator `z`, and programs handle
them by position. Every access is checked against the capacity; an access outside is `none`.

`StrAt` says which string a position holds. On a string, each operation succeeds, computes
what the function of the same purpose computes on the list of its characters, and leaves the
rest of the buffer alone. So a program that works in place can be read as a program on lists.
-/

namespace PeopleDetection.Library.StringBuffer

variable {α : Type*} [DecidableEq α] (cap : Nat) (z : α)

/-! ## Operations -/

def load (m : Nat → α) (i : Nat) : Option α := if i < cap then some (m i) else none

def store (m : Nat → α) (i : Nat) (b : α) : Option (Nat → α) :=
  if i < cap then some (Function.update m i b) else none

/-- The first position from `p` on whose character is looked for. -/
def scan (m : Nat → α) (found : α → Bool) (p : Nat) : Option Nat :=
  (List.range' p (cap - p)).find? fun q => found (m q)

/-- The string at a position. -/
def readString (m : Nat → α) (p : Nat) : Option (List α) :=
  (scan cap m (· = z) p).map fun e => (List.range' p (e - p)).map m

/-- Overwrite the last of `n` characters while they are trailing. -/
def trimLoop (trailing : α → Bool) (p : Nat) (m : Nat → α) : Nat → Option (Nat → α)
  | 0 => some m
  | n + 1 =>
      (load cap m (p + n)).bind fun b =>
        if trailing b then (store cap m (p + n) z).bind fun m => trimLoop trailing p m n
        else some m

def trimEnd (trailing : α → Bool) (m : Nat → α) (p : Nat) : Option (Nat → α) :=
  (scan cap m (· = z) p).bind fun e => trimLoop cap z trailing p m (e - p)

/-- Skip delimiters, terminate the token behind them, and save the position after it. The
inner `none` says that there is no token. -/
def token (delim : α) (m : Nat → α) (p : Nat) : Option (Option ((Nat → α) × Nat × Nat)) :=
  (scan cap m (· ≠ delim) p).bind fun first =>
    if m first = z then some none
    else
      (scan cap m (fun b => b = delim || b = z) first).bind fun stop =>
        if m stop = z then some (some (m, first, stop))
        else (store cap m stop z).map fun m => some (m, first, stop + 1)

/-! ## Strings -/

/-- Position `p` holds the string `s`. -/
def StrAt (m : Nat → α) : Nat → List α → Prop
  | p, [] => p < cap ∧ m p = z
  | p, b :: s => m p = b ∧ b ≠ z ∧ StrAt m (p + 1) s

/-- Position `p` holds these characters, of which any may be the terminator. -/
def Holds (m : Nat → α) : Nat → List α → Prop
  | _, [] => True
  | p, b :: s => m p = b ∧ Holds m (p + 1) s

variable {cap z} {m m' : Nat → α} {p : Nat} {s t : List α}

omit [DecidableEq α] in
theorem StrAt.lt (h : StrAt cap z m p s) : p + s.length < cap := by
  induction s generalizing p with
  | nil => exact h.1
  | cons b s ih =>
      have := ih h.2.2
      rw [List.length_cons]
      omega

omit [DecidableEq α] in
/-- A string depends on its own cells and the terminator. -/
theorem StrAt.congr (h : StrAt cap z m p s)
    (same : ∀ q, p ≤ q → q ≤ p + s.length → m' q = m q) : StrAt cap z m' p s := by
  induction s generalizing p with
  | nil => exact ⟨h.1, (same p (Nat.le_refl p) (Nat.le_refl p)).trans h.2⟩
  | cons b s ih =>
      rw [List.length_cons] at same
      refine ⟨(same p (Nat.le_refl p) (by omega)).trans h.1, h.2.1, ih h.2.2 ?_⟩
      exact fun q lo hi => same q (by omega) (by omega)

omit [DecidableEq α] in
theorem StrAt.drop (h : StrAt cap z m p (s ++ t)) : StrAt cap z m (p + s.length) t := by
  induction s generalizing p with
  | nil => exact h
  | cons b s ih =>
      have rest := ih h.2.2
      rwa [Nat.add_assoc, Nat.add_comm 1] at rest

omit [DecidableEq α] in
/-- A terminator behind a prefix leaves the prefix. -/
theorem StrAt.cut (h : StrAt cap z m p (s ++ t)) :
    StrAt cap z (Function.update m (p + s.length) z) p s := by
  induction s generalizing p with
  | nil =>
      have := h.lt
      exact ⟨by omega, Function.update_self p z m⟩
  | cons b s ih =>
      have rest := ih h.2.2
      rw [Nat.add_assoc, Nat.add_comm 1] at rest
      refine ⟨?_, h.2.1, rest⟩
      rw [Function.update_of_ne (by rw [List.length_cons]; omega)]
      exact h.1

/-- Characters followed by a terminator hold the string before the first terminator. -/
theorem Holds.strAt (h : Holds m p s) (last : m (p + s.length) = z)
    (room : p + s.length < cap) : StrAt cap z m p (s.takeWhile (· ≠ z)) := by
  induction s generalizing p with
  | nil => exact ⟨room, last⟩
  | cons b s ih =>
      rw [List.length_cons] at last room
      by_cases hb : b = z
      · rw [List.takeWhile_cons_of_neg (by simpa using hb)]
        exact ⟨by omega, h.1.trans hb⟩
      · rw [List.takeWhile_cons_of_pos (by simpa using hb)]
        refine ⟨h.1, hb, ih h.2 ?_ (by omega)⟩
        rwa [Nat.add_assoc, Nat.add_comm 1]

omit [DecidableEq α] in
theorem Holds.congr (h : Holds m p s) (same : ∀ q, p ≤ q → q < p + s.length → m' q = m q) :
    Holds m' p s := by
  induction s generalizing p with
  | nil => trivial
  | cons b s ih =>
      rw [List.length_cons] at same
      exact ⟨(same p (Nat.le_refl p) (by omega)).trans h.1,
        ih h.2 fun q lo hi => same q (by omega) (by omega)⟩

omit [DecidableEq α] in
theorem Holds.concat {b : α} (h : Holds m p s) (next : m (p + s.length) = b) :
    Holds m p (s ++ [b]) := by
  induction s generalizing p with
  | nil => exact ⟨next, trivial⟩
  | cons c s ih =>
      refine ⟨h.1, ih h.2 ?_⟩
      rwa [Nat.add_assoc, Nat.add_comm 1]

/-! ## The operations on strings -/

omit [DecidableEq α] in
/-- Scanning for a set with the terminator stops inside the string, behind the characters that
it keeps. -/
theorem StrAt.scan (h : StrAt cap z m p s) (found keep : α → Bool) (stops : found z = true)
    (others : ∀ c ∈ s, found c = !keep c) :
    scan cap m found p = some (p + (s.takeWhile keep).length) ∧
      StrAt cap z m (p + (s.takeWhile keep).length) (s.dropWhile keep) := by
  obtain ⟨k, hk, next⟩ : ∃ k, cap - p = k + 1 ∧ cap - (p + 1) = k :=
    ⟨cap - p - 1, by have := h.lt; omega, by omega⟩
  induction s generalizing p k with
  | nil =>
      refine ⟨?_, h⟩
      rw [StringBuffer.scan, hk, List.range'_succ,
        List.find?_cons_of_pos (by rw [h.2]; exact stops)]
      rfl
  | cons b s ih =>
      have here := others b List.mem_cons_self
      cases hb : keep b with
      | false =>
          rw [List.takeWhile_cons_of_neg (by simp [hb]), List.dropWhile_cons_of_neg (by simp [hb])]
          refine ⟨?_, h⟩
          rw [StringBuffer.scan, hk, List.range'_succ,
            List.find?_cons_of_pos (by rw [h.1, here, hb]; rfl)]
          rfl
      | true =>
          rw [List.takeWhile_cons_of_pos hb, List.dropWhile_cons_of_pos hb, List.length_cons]
          obtain ⟨reached, rest⟩ := ih h.2.2 (fun c hc => others c (List.mem_cons_of_mem b hc))
            (k - 1) (by have := h.2.2.lt; omega) (by omega)
          have shift : ∀ n, p + 1 + n = p + (n + 1) := fun n => by omega
          rw [StringBuffer.scan, next, shift] at reached
          rw [shift] at rest
          refine ⟨?_, rest⟩
          rw [StringBuffer.scan, hk, List.range'_succ,
            List.find?_cons_of_neg (by rw [h.1, here, hb]; decide), reached]

omit [DecidableEq α] in
theorem StrAt.map_range' (h : StrAt cap z m p s) : (List.range' p s.length).map m = s := by
  induction s generalizing p with
  | nil => rfl
  | cons b s ih =>
      rw [List.length_cons, List.range'_succ, List.map_cons, ih h.2.2, h.1]

omit [DecidableEq α] in
theorem StrAt.not_mem (h : StrAt cap z m p s) : z ∉ s := by
  induction s generalizing p with
  | nil => exact List.not_mem_nil
  | cons b s ih =>
      rw [List.mem_cons, not_or]
      exact ⟨h.2.1.symm, ih h.2.2⟩

theorem StrAt.scan_end (h : StrAt cap z m p s) :
    StringBuffer.scan cap m (· = z) p = some (p + s.length) := by
  have inside : ∀ c ∈ s, decide (c = z) = !true := by
    intro c hc
    simpa using fun hz : c = z => h.not_mem (hz ▸ hc)
  have found := (h.scan (· = z) (fun _ => true) (decide_eq_true rfl) inside).1
  rwa [List.takeWhile_eq_self_iff.mpr fun _ _ => rfl] at found

theorem StrAt.readString (h : StrAt cap z m p s) : readString cap z m p = some s := by
  rw [StringBuffer.readString, h.scan_end, Option.map_some, Nat.add_sub_cancel_left, h.map_range']

/-- Trimming removes the trailing characters in place. -/
theorem StrAt.trimEnd (trailing : α → Bool) (h : StrAt cap z m p s) :
    ∃ m', trimEnd cap z trailing m p = some m' ∧ StrAt cap z m' p (s.rdropWhile trailing) ∧
      ∀ q, q < p ∨ p + s.length ≤ q → m' q = m q := by
  rw [StringBuffer.trimEnd, h.scan_end, Option.bind_some, Nat.add_sub_cancel_left]
  induction s using List.reverseRecOn generalizing m with
  | nil => exact ⟨m, rfl, h, fun _ _ => rfl⟩
  | append_singleton s b ih =>
      have room := h.lt
      rw [List.length_append, List.length_singleton] at room ⊢
      have last : m (p + s.length) = b := h.drop.1
      have loaded : load cap m (p + s.length) = some b := by
        rw [load, if_pos (by omega), last]
      rw [trimLoop, loaded, Option.bind_some, List.rdropWhile_concat]
      by_cases hb : trailing b = true
      · rw [if_pos hb, if_pos hb, store, if_pos (by omega), Option.bind_some]
        obtain ⟨m', run, str, frame⟩ := ih h.cut
        refine ⟨m', run, str, fun q hq => ?_⟩
        rw [frame q (by omega), Function.update_of_ne (by omega)]
      · rw [if_neg hb, if_neg hb]
        exact ⟨m, rfl, h, fun _ _ => rfl⟩

/-- Skipping delimiters. -/
theorem StrAt.scan_delim {delim : α} (ne : delim ≠ z) (h : StrAt cap z m p s) :
    ∃ first, StringBuffer.scan cap m (· ≠ delim) p = some first ∧
      StrAt cap z m first (s.dropWhile (· = delim)) := by
  have found := h.scan (· ≠ delim) (· = delim) (by simpa using ne.symm) fun c _ => decide_not
  exact ⟨_, found⟩

/-- A string of delimiters has no token. -/
theorem StrAt.token_of_nil {delim : α} (ne : delim ≠ z) (h : StrAt cap z m p s)
    (empty : s.dropWhile (· = delim) = []) : token cap z delim m p = some none := by
  obtain ⟨first, found, str⟩ := h.scan_delim ne
  rw [empty] at str
  rw [token, found, Option.bind_some, if_pos str.2]

/-- The token is terminated in place, and the saved position holds what follows it. -/
theorem StrAt.token_of_cons {delim b : α} {rest : List α} (ne : delim ≠ z)
    (h : StrAt cap z m p s) (begins : s.dropWhile (· = delim) = b :: rest) :
    ∃ m' first save, token cap z delim m p = some (some (m', first, save)) ∧
      StrAt cap z m' first ((b :: rest).takeWhile (· ≠ delim)) ∧
      StrAt cap z m' save (((b :: rest).dropWhile (· ≠ delim)).drop 1) ∧
      first + ((b :: rest).takeWhile (· ≠ delim)).length ≤ save := by
  obtain ⟨first, found, str⟩ := h.scan_delim ne
  rw [begins] at str
  have nonempty : m first ≠ z := fun hz => str.2.1 (str.1 ▸ hz)
  -- the string has no terminator, so this scan looks for the delimiter only
  have others : ∀ c ∈ b :: rest, decide (c = delim ∨ c = z) = !decide (c ≠ delim) := by
    intro c hc
    have : c ≠ z := fun hz => str.not_mem (hz ▸ hc)
    simp [this]
  obtain ⟨ends, tail⟩ := str.scan (fun b => decide (b = delim ∨ b = z)) (· ≠ delim)
    (by simp) others
  have parts := List.takeWhile_append_dropWhile (p := (· ≠ delim)) (l := b :: rest)
  generalize (b :: rest).takeWhile (· ≠ delim) = tok at ends tail parts ⊢
  generalize (b :: rest).dropWhile (· ≠ delim) = left at tail parts ⊢
  rw [← parts] at str
  rw [token, found, Option.bind_some, if_neg nonempty]
  simp only [Bool.decide_or] at ends
  rw [ends, Option.bind_some]
  cases left with
  | nil =>
      rw [List.append_nil] at str
      rw [if_pos tail.2]
      exact ⟨m, first, _, rfl, str, tail, Nat.le_refl _⟩
  | cons c left =>
      have inside : m (first + tok.length) ≠ z := fun hz => tail.2.1 (tail.1 ▸ hz)
      have room := tail.lt
      rw [if_neg inside, store, if_pos (by omega), Option.map_some]
      refine ⟨_, first, _, rfl, str.cut, ?_, by omega⟩
      exact tail.2.2.congr fun q lo _ => Function.update_of_ne (by omega) _ _

end PeopleDetection.Library.StringBuffer
