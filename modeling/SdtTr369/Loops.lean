/-!
# Loops

A loop is given by its body, which takes a state to the next one or ends with a
result. The results of the loop are those it comes to by its turns; a loop that
spins has none.
-/

namespace Loops

inductive Turn (σ ρ : Type) where
  | again (s : σ)
  | done (r : ρ)
  deriving DecidableEq, Repr

variable {σ ρ : Type}

/-- The loop comes to the result. -/
inductive Ends (body : σ → Turn σ ρ) : σ → ρ → Prop where
  | done {s : σ} {r : ρ} (h : body s = .done r) : Ends body s r
  | again {s s' : σ} {r : ρ} (h : body s = .again s') (hends : Ends body s' r) : Ends body s r

/-- The state after `n` turns, while the loop goes on. -/
def after (body : σ → Turn σ ρ) : Nat → σ → Option σ
  | 0, s => some s
  | n + 1, s =>
    match body s with
    | .again s' => after body n s'
    | .done _ => none

variable {body : σ → Turn σ ρ} {s s' : σ} {r r' : ρ}

theorem ends_of_done (h : body s = .done r) : Ends body s r' ↔ r' = r := by
  constructor
  · intro hends
    cases hends with
    | done h' => exact Turn.done.inj (h'.symm.trans h)
    | again h' _ => cases h'.symm.trans h
  · rintro rfl
    exact .done h

theorem ends_of_again (h : body s = .again s') : Ends body s r ↔ Ends body s' r := by
  constructor
  · intro hends
    cases hends with
    | done h' => cases h'.symm.trans h
    | again h' hends => exact Turn.again.inj (h'.symm.trans h) ▸ hends
  · exact .again h

/-- A turn that changes nothing is taken again and again. -/
theorem not_ends_of_spin (h : body s = .again s) : ¬ Ends body s r := by
  intro hends
  generalize hstart : s = start at hends
  induction hends with
  | done h' => cases h.symm.trans (hstart ▸ h')
  | again h' _ ih => exact ih (Turn.again.inj (h.symm.trans (hstart ▸ h')))

theorem ends_of_after {n : Nat} (h : after body n s = some s') :
    Ends body s r ↔ Ends body s' r := by
  induction n generalizing s with
  | zero => rw [Option.some.inj h]
  | succ n ih =>
    rw [after] at h
    cases hbody : body s with
    | again s₁ =>
      rw [hbody] at h
      exact (ends_of_again hbody).trans (ih h)
    | done r' =>
      rw [hbody] at h
      cases h

end Loops
