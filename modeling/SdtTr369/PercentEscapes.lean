import Mathlib.Data.List.Basic

/-!
# Percent escapes

The escapes of a text over any alphabet, read from left to right. What two characters behind
the percent sign stand for is a parameter: nothing, the end of the text, or a character.
-/

namespace PercentEscapes

/-- The value of a hexadecimal digit, by its code. -/
def hexValue (code : Nat) : Option Nat :=
  if 48 ≤ code ∧ code ≤ 57 then some (code - 48)
  else if 97 ≤ code ∧ code ≤ 102 then some (code - 97 + 10)
  else if 65 ≤ code ∧ code ≤ 70 then some (code - 65 + 10)
  else none

theorem hexValue_lt {code digit : Nat} (h : hexValue code = some digit) : digit < 16 := by
  unfold hexValue at h
  grind

variable {α : Type} [DecidableEq α]

/-- Each percent sign in front of an escape is replaced with what it stands for. -/
def unescape (percent : α) (escape : α → α → Option (Option α)) : List α → List α
  | c :: first :: second :: s =>
    if c = percent then
      match escape first second with
      | some (some d) => d :: unescape percent escape s
      | some none => []
      | none => c :: unescape percent escape (first :: second :: s)
    else c :: unescape percent escape (first :: second :: s)
  | s => s

variable {percent c first second : α} {escape : α → α → Option (Option α)} {s : List α}

@[simp] theorem unescape_nil : unescape percent escape [] = [] := by
  rw [unescape]
  simp

@[simp] theorem unescape_singleton : unescape percent escape [c] = [c] := by
  rw [unescape]
  simp

@[simp] theorem unescape_pair : unescape percent escape [c, first] = [c, first] := by
  rw [unescape]
  simp

theorem unescape_other (h : c ≠ percent) :
    unescape percent escape (c :: s) = c :: unescape percent escape s := by
  match s with
  | [] => simp
  | [d] => simp
  | d :: e :: s => rw [unescape, if_neg h]

theorem unescape_escape {d : α} (h : escape first second = some (some d)) :
    unescape percent escape (percent :: first :: second :: s) = d :: unescape percent escape s := by
  rw [unescape, if_pos rfl, h]

theorem unescape_end (h : escape first second = some none) :
    unescape percent escape (percent :: first :: second :: s) = [] := by
  rw [unescape, if_pos rfl, h]

theorem unescape_malformed (h : escape first second = none) :
    unescape percent escape (percent :: first :: second :: s) =
      percent :: unescape percent escape (first :: second :: s) := by
  rw [unescape, if_pos rfl, h]

theorem unescape_length_le (s : List α) : (unescape percent escape s).length ≤ s.length := by
  fun_induction unescape percent escape s with
  | case5 => exact Nat.le_refl _
  | _ =>
    simp only [List.length_cons, List.length_nil] at *
    omega

/-- A character that no escape stands for comes from the text. -/
theorem not_mem_unescape {x : α} (hescape : ∀ first second, escape first second ≠ some (some x))
    (h : x ∉ s) : x ∉ unescape percent escape s := by
  fun_induction unescape percent escape s with
  | case1 first second s d hd ih =>
    simp only [List.mem_cons, not_or] at h ⊢
    exact ⟨fun heq => hescape first second (heq ▸ hd), ih h.2.2.2⟩
  | case2 => exact List.not_mem_nil
  | case3 first second s _ ih =>
    obtain ⟨hc, hrest⟩ := not_or.mp (List.mem_cons.not.mp h)
    exact List.mem_cons.not.mpr (not_or.mpr ⟨hc, ih hrest⟩)
  | case4 c first second s _ ih =>
    obtain ⟨hc, hrest⟩ := not_or.mp (List.mem_cons.not.mp h)
    exact List.mem_cons.not.mpr (not_or.mpr ⟨hc, ih hrest⟩)
  | case5 => exact h

end PercentEscapes
