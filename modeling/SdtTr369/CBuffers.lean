import Mathlib.Data.List.TakeWhile

/-!
# Buffers of C strings

A buffer is the list of its cells. A write begins at its first cell, and a string is read up to
the first terminator; no result is an access outside the buffer.
-/

namespace CBuffers

open List

abbrev Text := List Char

abbrev Buffer := List Char

/-- The terminator. -/
def nul : Char := Char.ofNat 0

/-- A string as a caller receives it: the terminator is not among its characters. -/
abbrev CString := { text : Text // nul ∉ text }

/-- `memcpy` -/
def write (buf : Buffer) (text : Text) : Option Buffer :=
  if text.length ≤ buf.length then some (text ++ buf.drop text.length) else none

/-- `strcpy`: the terminator is written as well. -/
def copyString (buf : Buffer) (text : Text) : Option Buffer := write buf (text ++ [nul])

/-- `memset` to zero, then `memcpy` of as much of the text as the buffer takes. -/
def fillString (buf : Buffer) (text : Text) : Buffer :=
  text.take buf.length ++ List.replicate (buf.length - text.length) nul

/-- The characters in front of the terminator. -/
def readString (buf : Buffer) : Option Text :=
  if nul ∈ buf then some (buf.takeWhile (· ≠ nul)) else none

/-- The text that `sprintf` leaves in a buffer. -/
def sprintf (size : Nat) (text : Text) : Option Text :=
  if text.length < size then some text else none

/-- The text that `snprintf` leaves in a buffer. -/
def clip (size : Nat) (text : Text) : Text := text.take (size - 1)

/-- `strcat` of one text after the other. -/
def appendAll (size : Nat) : Text → List Text → Option Text
  | text, [] => some text
  | text, part :: parts =>
    if (text ++ part).length < size then appendAll size (text ++ part) parts else none

/-- The string that begins at a cell. -/
def stringAt (buf : Buffer) (i : Nat) : Option Text := readString (buf.drop i)

/-- One cell is written. -/
def poke (buf : Buffer) (i : Nat) (c : Char) : Option Buffer :=
  if i < buf.length then some (buf.set i c) else none

/-- The outcomes of accesses one after the other. -/
def allInside {α : Type} : List (Option α) → Option (List α)
  | [] => some []
  | none :: _ => none
  | some a :: outcomes => (allInside outcomes).map (a :: ·)

variable {buf buf' : Buffer} {text : Text}

theorem readString_terminated {rest : Text} (h : nul ∉ text) :
    readString (text ++ nul :: rest) = some text := by
  have hall : ∀ c ∈ text, decide (c ≠ nul) = true := fun c hc =>
    decide_eq_true fun hnul => h (hnul ▸ hc)
  rw [readString, if_pos (by simp), takeWhile_append_of_pos hall]
  simp

theorem stringAt_append {rest : Text} (front : Buffer) (h : nul ∉ text) :
    stringAt (front ++ text ++ nul :: rest) front.length = some text := by
  rw [stringAt, append_assoc, drop_left]
  exact readString_terminated h

theorem poke_append (front rest : Buffer) (old new : Char) :
    poke (front ++ old :: rest) front.length new = some (front ++ new :: rest) := by
  rw [poke, if_pos (by simp), set_append_right _ _ (Nat.le_refl _), Nat.sub_self]
  rfl

theorem readString_open (h : nul ∉ buf) : readString buf = none := if_neg h

theorem copyString_eq_some_iff :
    copyString buf text = some buf' ↔
      text.length < buf.length ∧ text ++ nul :: buf.drop (text.length + 1) = buf' := by
  simp [copyString, write, Nat.succ_le_iff]

/-- A text that was copied is read back. -/
theorem readString_copyString (h : nul ∉ text) (hcopy : copyString buf text = some buf') :
    readString buf' = some text := by
  obtain ⟨_, rfl⟩ := copyString_eq_some_iff.mp hcopy
  exact readString_terminated h

/-- A text that fills the buffer is left without a terminator. -/
theorem readString_fillString (h : nul ∉ text) :
    readString (fillString buf text) = if text.length < buf.length then some text else none := by
  split
  · next hlt =>
    obtain ⟨n, hn⟩ : ∃ n, buf.length - text.length = n + 1 := ⟨_, (Nat.succ_pred (by omega)).symm⟩
    rw [fillString, hn, replicate_succ, take_of_length_le (by omega)]
    exact readString_terminated h
  · next hge =>
    have hzero : buf.length - text.length = 0 := by omega
    rw [fillString, hzero, replicate_zero, append_nil]
    exact readString_open fun hmem => h (mem_of_mem_take hmem)

variable {size : Nat}

theorem sprintf_of_lt (h : text.length < size) : sprintf size text = some text :=
  if_pos h

theorem sprintf_isSome_iff : (sprintf size text).isSome = true ↔ text.length < size := by
  rw [sprintf]
  split <;> simp [*]

theorem lt_of_sprintf {printed : Text} (h : sprintf size text = some printed) :
    text.length < size := sprintf_isSome_iff.mp (h ▸ rfl)

theorem appendAll_eq {parts : List Text} (h : text.length < size) :
    appendAll size text parts =
      if (text ++ parts.flatten).length < size then some (text ++ parts.flatten) else none := by
  induction parts generalizing text with
  | nil => simp [appendAll, h]
  | cons part parts ih =>
    rw [appendAll, flatten_cons, ← append_assoc]
    split
    · next hlt => exact ih hlt
    · next hge =>
      rw [if_neg]
      simp only [length_append] at hge ⊢
      omega

theorem allInside_eq_some_iff {α : Type} {outcomes : List (Option α)} {results : List α} :
    allInside outcomes = some results ↔ outcomes = results.map some := by
  induction outcomes generalizing results with
  | nil => cases results <;> simp [allInside]
  | cons outcome outcomes ih =>
    cases outcome with
    | none => cases results <;> simp [allInside]
    | some a =>
      cases results with
      | nil => simp [allInside]
      | cons b results =>
        simp only [allInside, Option.map_eq_some_iff, ih, map_cons, List.cons.injEq,
          Option.some.injEq]
        constructor
        · rintro ⟨_, houtcomes, rfl, rfl⟩
          exact ⟨rfl, houtcomes⟩
        · rintro ⟨rfl, houtcomes⟩
          exact ⟨results, houtcomes, rfl, rfl⟩

end CBuffers
