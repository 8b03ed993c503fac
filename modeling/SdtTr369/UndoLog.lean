import Mathlib.Data.List.Infix

/-!
# Undo logs over collections of lists

A collection holds lists, each of which stands for a place in a tree. Inserting
adds one list; taking back an insertion removes everything below it. The log
records what was inserted and removed, and the replay takes the entries back
from the first to the last, not from the last to the first.

The last entry that touches a list therefore decides whether the replay holds
it (`replay_iff`), and the replay gives the initial collection exactly when that
entry says what was held at the start (`replay_restores_iff`).
-/

namespace UndoLog

open List

variable {κ : Type}

abbrev Collection (κ : Type) := List κ → Prop

/-- Every non-empty prefix of a member is a member. -/
def PrefixClosed (V : Collection κ) : Prop := ∀ p t, V t → p <+: t → p ≠ [] → V p

variable {p : List κ}

section Closed

variable {V V' : Collection κ}

theorem PrefixClosed.insert (h : PrefixClosed V) (hparent : p.dropLast = [] ∨ V p.dropLast)
    (hV : ∀ t, V' t ↔ V t ∨ t = p) : PrefixClosed V' := by
  intro q t ht hq hne
  rcases (hV t).mp ht with ht | rfl
  · exact (hV q).mpr (.inl (h q t ht hq hne))
  · by_cases heq : q = t
    · exact (hV q).mpr (.inr heq)
    · have hlt : q.length < t.length :=
        Nat.lt_of_le_of_ne hq.length_le fun hlen => heq (hq.eq_of_length hlen)
      have hdrop : q <+: t.dropLast := by
        obtain ⟨r, rfl⟩ := hq
        cases r using List.reverseRecOn with
        | nil => simp at hlt
        | append_singleton r k _ => simp [← append_assoc]
      rcases hparent with hnil | hparent
      · rw [hnil] at hdrop
        exact absurd (List.prefix_nil.mp hdrop) hne
      · exact (hV q).mpr (.inl (h q _ hparent hdrop hne))

/-- Parents are enough. -/
theorem prefixClosed_of_dropLast (h : ∀ t, V t → t.dropLast = [] ∨ V t.dropLast) :
    PrefixClosed V := by
  intro p t ht hp hne
  induction t using List.reverseRecOn with
  | nil => exact absurd (List.prefix_nil.mp hp) hne
  | append_singleton t k ih =>
    rcases List.prefix_concat_iff.mp hp with rfl | hp
    · exact ht
    · have hparent := h _ ht
      rw [dropLast_concat] at hparent
      rcases hparent with rfl | hparent
      · exact absurd (List.prefix_nil.mp hp) hne
      · exact ih hparent hp

theorem PrefixClosed.removeBelow (h : PrefixClosed V) (hV : ∀ t, V' t ↔ V t ∧ ¬ p <+: t) :
    PrefixClosed V' := by
  intro q t ht hq hne
  obtain ⟨ht, hp⟩ := (hV t).mp ht
  exact (hV q).mpr ⟨h q t ht hq hne, fun hpq => hp (hpq.trans hq)⟩

theorem PrefixClosed.congr (h : PrefixClosed V) (hV : ∀ t, V' t ↔ V t) : PrefixClosed V' :=
  fun q t ht hq hne => (hV q).mpr (h q t ((hV t).mp ht) hq hne)

end Closed

inductive Change (κ : Type) where
  | insert (p : List κ)
  | remove (p : List κ)
  deriving DecidableEq, Repr

def Change.isRemove : Change κ → Bool
  | .insert _ => false
  | .remove _ => true

variable [DecidableEq κ]

/-- The lists whose membership the undoing of a change decides. -/
def Change.touches : Change κ → List κ → Bool
  | .insert p, t => p.isPrefixOf t
  | .remove p, t => p = t

variable {t : List κ}

@[simp] theorem touches_insert :
    (Change.insert p).touches t = true ↔ p <+: t := isPrefixOf_iff_prefix

@[simp] theorem touches_remove : (Change.remove p).touches t = true ↔ p = t :=
  decide_eq_true_iff

def Change.undo : Change κ → Collection κ → Collection κ
  | .insert p, V => fun t => V t ∧ ¬ p <+: t
  | .remove p, V => fun t => V t ∨ t = p

/-- The entries taken back in the order in which they were logged. -/
def replay : List (Change κ) → Collection κ → Collection κ
  | [], V => V
  | c :: log, V => replay log (c.undo V)

def touching (log : List (Change κ)) (t : List κ) : List (Change κ) :=
  log.filter fun c => c.touches t

@[simp] theorem touching_nil (t : List κ) : touching [] t = [] := rfl

theorem touching_append (log log' : List (Change κ)) (t : List κ) :
    touching (log ++ log') t = touching log t ++ touching log' t := filter_append ..

variable {log : List (Change κ)}

theorem touching_eq_nil : touching log t = [] ↔ ∀ c ∈ log, c.touches t = false := by
  simp [touching, filter_eq_nil_iff]

theorem undo_iff (c : Change κ) (V : Collection κ) (t : List κ) :
    c.undo V t ↔ if c.touches t = true then c.isRemove = true else V t := by
  cases c with
  | insert p =>
    by_cases h : p <+: t <;> simp [Change.undo, Change.touches, Change.isRemove, h]
  | remove p =>
    by_cases h : p = t
    · simp [Change.undo, Change.touches, Change.isRemove, h]
    · simp [Change.undo, Change.touches, h, Ne.symm h]

theorem replay_iff (log : List (Change κ)) (V : Collection κ) (t : List κ) :
    replay log V t ↔
      match (touching log t).getLast? with
      | none => V t
      | some c => c.isRemove = true := by
  induction log generalizing V with
  | nil => rfl
  | cons c log ih =>
    rw [replay, ih, undo_iff]
    by_cases h : c.touches t = true
    · have hcons : touching (c :: log) t = c :: touching log t := filter_cons_of_pos h
      rw [hcons, getLast?_cons, if_pos h]
      cases (touching log t).getLast? <;> rfl
    · have hcons : touching (c :: log) t = touching log t := filter_cons_of_neg h
      rw [hcons, if_neg h]

theorem replay_congr {V V' : Collection κ} (h : ∀ t, V t ↔ V' t) (t : List κ) :
    replay log V t ↔ replay log V' t := by
  rw [replay_iff, replay_iff]
  cases (touching log t).getLast? with
  | none => exact h t
  | some c => exact Iff.rfl

/-- The last entry that touches `t` is a removal exactly if `t` was held. -/
def LastEntryAgrees (V₀ : Collection κ) (log : List (Change κ)) (t : List κ) : Prop :=
  ∀ c, (touching log t).getLast? = some c → (c.isRemove = true ↔ V₀ t)

/-- A list whose changes are all in the log is restored exactly when the last
entry for it agrees with the start. -/
theorem replay_restores_iff {V₀ V : Collection κ} (h : touching log t = [] → (V t ↔ V₀ t)) :
    (replay log V t ↔ V₀ t) ↔ LastEntryAgrees V₀ log t := by
  rw [replay_iff, LastEntryAgrees]
  cases hl : (touching log t).getLast? with
  | none =>
    have hv := h (List.getLast?_eq_none_iff.mp hl)
    simp [hv]
  | some c => simp

/-- A log that only removes lists which were held agrees with the start. -/
theorem lastEntryAgrees_of_removes {V₀ : Collection κ} (h : ∀ c ∈ log, ∃ p, c = .remove p ∧ V₀ p)
    (t : List κ) : LastEntryAgrees V₀ log t := by
  intro c hc
  obtain ⟨hmem, htouch⟩ := List.mem_filter.mp (mem_of_getLast? hc)
  obtain ⟨p, rfl, hp⟩ := h c hmem
  have hpt := touches_remove.mp htouch
  exact ⟨fun _ => hpt ▸ hp, fun _ => rfl⟩

/-- An insertion that touches a prefix touches the list itself. -/
theorem touching_prefix (hp : p <+: t) (ht : touching log t = []) :
    ∀ c ∈ touching log p, c.isRemove = true := by
  intro c hc
  obtain ⟨hmem, htouch⟩ := List.mem_filter.mp hc
  cases c with
  | remove q => rfl
  | insert q =>
    have hq : q <+: t := (List.isPrefixOf_iff_prefix.mp htouch).trans hp
    have hno := touching_eq_nil.mp ht _ hmem
    rw [Change.touches, List.isPrefixOf_iff_prefix.mpr hq] at hno
    cases hno

/-- What is put back has its ancestors: they are put back as well, or the log
leaves them alone and they are held. -/
def RestoresUnder (V : Collection κ) (log : List (Change κ)) : Prop :=
  ∀ p t, p <+: t → p ≠ [] → (∃ c, (touching log t).getLast? = some c ∧ c.isRemove = true) →
    match (touching log p).getLast? with
    | none => V p
    | some c => c.isRemove = true

theorem replay_prefixClosed_iff {V : Collection κ} (hV : PrefixClosed V) :
    PrefixClosed (replay log V) ↔ RestoresUnder V log := by
  constructor
  · intro h p t hp hne hlast
    obtain ⟨c, hc, hremove⟩ := hlast
    have ht : replay log V t := by
      rw [replay_iff, hc]
      exact hremove
    exact (replay_iff log V p).mp (h p t ht hp hne)
  · intro h p t ht hp hne
    rw [replay_iff] at ht ⊢
    cases hl : (touching log t).getLast? with
    | some c =>
      rw [hl] at ht
      exact h p t hp hne ⟨c, hl, ht⟩
    | none =>
      rw [hl] at ht
      have htouch := touching_prefix hp (List.getLast?_eq_none_iff.mp hl)
      cases hlp : (touching log p).getLast? with
      | none => exact hV p t ht hp hne
      | some c => exact htouch c (mem_of_getLast? hlp)

end UndoLog
