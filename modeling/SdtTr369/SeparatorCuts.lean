import Mathlib.Data.List.Infix
import SdtTr369.HexText

/-!
# Cuts at a separator

A text is cut at the occurrences of a separator of any length, from the left, and an occurrence
that overlaps one before it does not count. Joined pieces are cut where they were joined exactly
when no piece lets an occurrence begin before its end.
-/

namespace SeparatorCuts

open List

variable {α : Type} [DecidableEq α]

/-- The first piece is one element longer. -/
def lengthen (a : α) : List (List α) → List (List α)
  | [] => [[a]]
  | p :: ps => (a :: p) :: ps

/-- The pieces behind the next `n` elements. -/
def cutBehind (sep : List α) : Nat → List α → List (List α)
  | _, [] => [[]]
  | n + 1, _ :: text => cutBehind sep n text
  | 0, a :: text =>
    if sep <+: a :: text then [] :: cutBehind sep (sep.length - 1) text
    else lengthen a (cutBehind sep 0 text)

def cut (sep text : List α) : List (List α) := cutBehind sep 0 text

/-- Pieces that are cut where they are joined. -/
def Clean (sep : List α) : List (List α) → Prop
  | [] => False
  | [p] => ¬ sep <:+: p
  | p :: q :: ps => ¬ sep <:+: p ++ sep.dropLast ∧ Clean sep (q :: ps)

variable {sep : List α}

theorem cutBehind_eq (n : Nat) (text : List α) : cutBehind sep n text = cut sep (text.drop n) := by
  induction n generalizing text with
  | zero => rfl
  | succ n ih =>
    cases text with
    | nil => rfl
    | cons a text => exact ih text

@[simp] theorem cut_nil : cut sep [] = [[]] := rfl

theorem cut_sep (h : sep ≠ []) (text : List α) : cut sep (sep ++ text) = [] :: cut sep text := by
  cases sep with
  | nil => exact (h rfl).elim
  | cons a sep =>
    have hdrop : (sep ++ text).drop ((a :: sep).length - 1) = text := by simp
    rw [cons_append, cut, cutBehind, ← cons_append, if_pos (prefix_append _ _),
      cutBehind_eq, hdrop]

theorem cut_cons {a : α} {text : List α} (h : ¬ sep <+: a :: text) :
    cut sep (a :: text) = lengthen a (cut sep text) := by
  rw [cut, cutBehind, if_neg h]
  rfl

/-- A text is empty, begins with the separator, or begins with another element. -/
theorem cut_induction {motive : List α → Prop} (h : sep ≠ []) (nil : motive [])
    (separator : ∀ text, motive text → motive (sep ++ text))
    (other : ∀ a text, ¬ sep <+: a :: text → motive text → motive (a :: text)) (text : List α) :
    motive text := by
  induction hlen : text.length using Nat.strong_induction_on generalizing text with
  | _ n ih =>
    cases text with
    | nil => exact nil
    | cons a text =>
      have hpos : 0 < sep.length := length_pos_of_ne_nil h
      by_cases hsep : sep <+: a :: text
      · obtain ⟨rest, hrest⟩ := hsep
        rw [← hrest, length_append] at hlen
        rw [← hrest]
        exact separator rest (ih rest.length (by omega) rest rfl)
      · rw [length_cons] at hlen
        exact other a text hsep (ih text.length (by omega) text rfl)

theorem cut_ne_nil (h : sep ≠ []) (text : List α) : cut sep text ≠ [] := by
  induction text using cut_induction h with
  | nil => exact cons_ne_nil [] []
  | separator text _ =>
    rw [cut_sep h]
    exact cons_ne_nil [] _
  | other a text hno _ =>
    rw [cut_cons hno]
    cases cut sep text with
    | nil => exact cons_ne_nil [a] []
    | cons p ps => exact cons_ne_nil (a :: p) ps

/-- Nothing but separators is lost. -/
theorem join_cut (h : sep ≠ []) (text : List α) : sep.intercalate (cut sep text) = text := by
  induction text using cut_induction h with
  | nil => simp
  | separator text ih =>
    rw [cut_sep h]
    cases hcut : cut sep text with
    | nil => exact (cut_ne_nil h text hcut).elim
    | cons p ps => rw [intercalate_cons_cons, ← hcut, ih]; rfl
  | other a text hno ih =>
    rw [cut_cons hno]
    cases hcut : cut sep text with
    | nil => exact (cut_ne_nil h text hcut).elim
    | cons p ps =>
      rw [hcut, HexText.intercalate_cons_flatMap] at ih
      rw [lengthen, HexText.intercalate_cons_flatMap, cons_append, ih]

omit [DecidableEq α] in
/-- An occurrence at the start ends before a separator behind the text does. -/
theorem not_isPrefix {a : α} {p rest : List α} (h : ¬ sep <:+: a :: p ++ sep.dropLast) :
    ¬ sep <+: a :: (p ++ sep ++ rest) := by
  intro hsep
  apply h
  have hwhole : a :: p ++ sep.dropLast <+: a :: (p ++ sep ++ rest) := by
    have htail : p ++ sep.dropLast <+: p ++ sep ++ rest :=
      ((prefix_append_right_inj p).mpr (List.dropLast_prefix sep)).trans
        (prefix_append _ _)
    exact List.cons_prefix_cons.mpr ⟨rfl, htail⟩
  have hlen : sep.length ≤ (a :: p ++ sep.dropLast).length := by
    rw [length_append, length_cons, length_dropLast]
    omega
  exact (prefix_of_prefix_length_le hsep hwhole hlen).isInfix

theorem cut_append (hne : sep ≠ []) {p : List α} (h : ¬ sep <:+: p ++ sep.dropLast)
    (rest : List α) : cut sep (p ++ sep ++ rest) = p :: cut sep rest := by
  induction p with
  | nil => exact cut_sep hne rest
  | cons a p ih =>
    have htail : ¬ sep <:+: p ++ sep.dropLast := fun hwithin =>
      h (hwithin.trans (suffix_cons a _).isInfix)
    rw [cons_append, cons_append, cut_cons (not_isPrefix h), ih htail]
    rfl

theorem cut_single {p : List α} (h : ¬ sep <:+: p) : cut sep p = [p] := by
  induction p with
  | nil => rfl
  | cons a p ih =>
    have htail : ¬ sep <:+: p := fun hwithin => h (hwithin.trans (suffix_cons a p).isInfix)
    rw [cut_cons fun hsep => h hsep.isInfix, ih htail]
    rfl

theorem cut_join (hne : sep ≠ []) {ps : List (List α)} (h : Clean sep ps) :
    cut sep (sep.intercalate ps) = ps := by
  induction ps with
  | nil => exact h.elim
  | cons p ps ih =>
    cases ps with
    | nil =>
      rw [intercalate_singleton]
      exact cut_single h
    | cons q ps => rw [intercalate_cons_cons, cut_append hne h.1, ih h.2]

theorem clean_cut (hne : sep ≠ []) (text : List α) : Clean sep (cut sep text) := by
  have hpos : 0 < sep.length := length_pos_of_ne_nil hne
  induction text using cut_induction hne with
  | nil =>
    rw [cut_nil, Clean, infix_nil]
    exact hne
  | separator text ih =>
    rw [cut_sep hne]
    cases hcut : cut sep text with
    | nil => exact (cut_ne_nil hne text hcut).elim
    | cons p ps =>
      rw [hcut] at ih
      refine ⟨fun hwithin => ?_, ih⟩
      have hle := hwithin.length_le
      rw [nil_append, length_dropLast] at hle
      omega
  | other a text hno ih =>
    have hjoin := join_cut hne text
    rw [cut_cons hno]
    cases hcut : cut sep text with
    | nil => exact (cut_ne_nil hne text hcut).elim
    | cons p ps =>
      rw [hcut] at ih hjoin
      cases ps with
      | nil =>
        rw [intercalate_singleton] at hjoin
        rw [lengthen, Clean, infix_cons_iff, not_or, hjoin]
        exact ⟨hno, hjoin ▸ ih⟩
      | cons q ps =>
        rw [intercalate_cons_cons] at hjoin
        rw [lengthen, Clean, cons_append, infix_cons_iff, not_or]
        refine ⟨⟨fun hsep => hno ?_, ih.1⟩, ih.2⟩
        have htail : p ++ sep.dropLast <+: text := by
          rw [← hjoin]
          exact ((prefix_append_right_inj p).mpr (List.dropLast_prefix sep)).trans
            (prefix_append _ _)
        exact hsep.trans (List.cons_prefix_cons.mpr ⟨rfl, htail⟩)

/-- Exactly the clean pieces are given back. -/
theorem cut_join_iff (hne : sep ≠ []) (ps : List (List α)) :
    cut sep (sep.intercalate ps) = ps ↔ Clean sep ps := by
  constructor
  · intro h
    rw [← h]
    exact clean_cut hne _
  · exact cut_join hne

end SeparatorCuts
