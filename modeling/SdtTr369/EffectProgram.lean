import Mathlib.Logic.Basic
import Mathlib.Data.List.Infix

/-!
# Programs with a state, errors and assertions

A program over the states `σ` ends with a value or an error code, in both cases
in some state, or it stops the process at a failed assertion (`none`). Errors
keep the state, as a function does that returns a code early.

`Wp T m s Q E` says that `m` run from `s` ends in `Q` with a value or in `E`
with an error; `T` is what is asked of a stop: `False` forbids it and `True`
allows it. The rules take a program apart from the front.
-/

namespace EffectProgram

def Prog (σ ε α : Type) : Type := σ → Option (Except ε α × σ)

namespace Prog

variable {σ ε ε' α β : Type}

def ret (a : α) : Prog σ ε α := fun s => some (.ok a, s)

def bind (m : Prog σ ε α) (f : α → Prog σ ε β) : Prog σ ε β := fun s =>
  match m s with
  | none => none
  | some (.error e, s') => some (.error e, s')
  | some (.ok a, s') => f a s'

instance : Monad (Prog σ ε) where
  pure := ret
  bind := bind

def fail (e : ε) : Prog σ ε α := fun s => some (.error e, s)

def read (f : σ → α) : Prog σ ε α := fun s => some (.ok (f s), s)

def update (f : σ → σ) : Prog σ ε Unit := fun s => some (.ok (), f s)

/-- A run-time assertion: the process ends when it does not hold. -/
def require (c : Bool) : Prog σ ε Unit := fun s => if c then some (.ok (), s) else none

/-- The end of the process. -/
def halt : Prog σ ε α := fun _ => none

/-- Run a program and hand its error, if any, to the caller. -/
def attempt (m : Prog σ ε α) : Prog σ ε' (Except ε α) := fun s =>
  (m s).map fun r => (.ok r.1, r.2)

/-- Run a program and forget whether it failed. -/
def ignore (m : Prog σ ε α) : Prog σ ε' Unit := do
  let _ ← (attempt m : Prog σ ε' (Except ε α))
  pure ()

def forEach (xs : List β) (f : β → Prog σ ε Unit) : Prog σ ε Unit :=
  match xs with
  | [] => pure ()
  | x :: xs => do f x; forEach xs f

/-- The outcome of a run, without the state in which it ends. -/
def result (m : Prog σ ε α) (s : σ) : Option (Except ε α) := (m s).map Prod.fst

/-- The state in which a run ends; a program that stops leaves the first one. -/
def after (m : Prog σ ε α) (s : σ) : σ :=
  match m s with
  | none => s
  | some r => r.2

theorem run_eq {m : Prog σ ε α} {s : σ} {r : Except ε α} (h : result m s = some r) :
    m s = some (r, after m s) := by
  unfold result after at *
  cases hm : m s with
  | none => simp [hm] at h
  | some x =>
    rw [hm] at h
    cases h
    rfl

theorem result_after {m : Prog σ ε α} {s s' : σ} {r : Except ε α} (h : m s = some (r, s')) :
    result m s = some r ∧ s' = after m s := by
  unfold result after
  rw [h]
  exact ⟨rfl, rfl⟩

theorem result_bind {m : Prog σ ε α} {f : α → Prog σ ε β} {s s' : σ} {a : α}
    (h : m s = some (.ok a, s')) : result (m >>= f) s = result (f a) s' := by
  show Option.map Prod.fst (bind m f s) = _
  rw [bind, h]
  rfl

theorem result_bind_error {m : Prog σ ε α} {f : α → Prog σ ε β} {s s' : σ} {e : ε}
    (h : m s = some (.error e, s')) : result (m >>= f) s = some (.error e) := by
  show Option.map Prod.fst (bind m f s) = _
  rw [bind, h]
  rfl

end Prog

open Prog

section Rules

variable {σ ε ε' α β : Type} {T : Prop}

def Wp (T : Prop) (m : Prog σ ε α) (s : σ) (Q : α → σ → Prop) (E : ε → σ → Prop) : Prop :=
  match m s with
  | none => T
  | some (.error e, s') => E e s'
  | some (.ok a, s') => Q a s'

@[simp] theorem wp_pure (a : α) (s : σ) (Q : α → σ → Prop) (E : ε → σ → Prop) :
    Wp T (pure a : Prog σ ε α) s Q E ↔ Q a s := Iff.rfl

@[simp] theorem wp_fail (e : ε) (s : σ) (Q : α → σ → Prop) (E : ε → σ → Prop) :
    Wp T (fail e : Prog σ ε α) s Q E ↔ E e s := Iff.rfl

@[simp] theorem wp_read (f : σ → α) (s : σ) (Q : α → σ → Prop) (E : ε → σ → Prop) :
    Wp T (read f : Prog σ ε α) s Q E ↔ Q (f s) s := Iff.rfl

@[simp] theorem wp_update (f : σ → σ) (s : σ) (Q : Unit → σ → Prop) (E : ε → σ → Prop) :
    Wp T (update f : Prog σ ε Unit) s Q E ↔ Q () (f s) := Iff.rfl

@[simp] theorem wp_require (c : Bool) (s : σ) (Q : Unit → σ → Prop) (E : ε → σ → Prop) :
    Wp T (require c : Prog σ ε Unit) s Q E ↔ if c = true then Q () s else T := by
  cases c <;> rfl

@[simp] theorem wp_halt (s : σ) (Q : α → σ → Prop) (E : ε → σ → Prop) :
    Wp T (halt : Prog σ ε α) s Q E ↔ T := Iff.rfl

variable (m : Prog σ ε α)

@[simp] theorem wp_bind (f : α → Prog σ ε β) (s : σ) (Q : β → σ → Prop) (E : ε → σ → Prop) :
    Wp T (m >>= f) s Q E ↔ Wp T m s (fun a s' => Wp T (f a) s' Q E) E := by
  show Wp T (Prog.bind m f) s Q E ↔ _
  unfold Wp Prog.bind
  cases h : m s with
  | none => rfl
  | some r =>
    obtain ⟨r, s'⟩ := r
    cases r <;> rfl

@[simp] theorem wp_attempt (s : σ) (Q : Except ε α → σ → Prop) (E : ε' → σ → Prop) :
    Wp T (attempt m : Prog σ ε' (Except ε α)) s Q E ↔
      Wp T m s (fun a s' => Q (.ok a) s') (fun e s' => Q (.error e) s') := by
  unfold Wp attempt
  cases h : m s with
  | none => rfl
  | some r =>
    obtain ⟨r, s'⟩ := r
    cases r <;> rfl

@[simp] theorem wp_ignore (s : σ) (Q : Unit → σ → Prop) (E : ε' → σ → Prop) :
    Wp T (ignore m : Prog σ ε' Unit) s Q E ↔
      Wp T m s (fun _ s' => Q () s') (fun _ s' => Q () s') := by
  simp only [ignore, wp_bind, wp_attempt, wp_pure]

theorem wp_ite (c : Prop) [Decidable c] (m n : Prog σ ε α) (s : σ) (Q : α → σ → Prop)
    (E : ε → σ → Prop) :
    Wp T (if c then m else n) s Q E ↔ if c then Wp T m s Q E else Wp T n s Q E := by
  split <;> rfl

theorem Wp.mono {m : Prog σ ε α} {s : σ} {Q Q' : α → σ → Prop} {E E' : ε → σ → Prop}
    (h : Wp T m s Q E) (hQ : ∀ a s', Q a s' → Q' a s') (hE : ∀ e s', E e s' → E' e s') :
    Wp T m s Q' E' := by
  unfold Wp at *
  cases hm : m s with
  | none => simpa [hm] using h
  | some r =>
    obtain ⟨r, s'⟩ := r
    rw [hm] at h
    cases r with
    | error e => exact hE e s' h
    | ok a => exact hQ a s' h

theorem wp_true (s : σ) : Wp True m s (fun _ _ => True) (fun _ _ => True) := by
  unfold Wp
  split <;> trivial

section

variable {m : Prog σ ε α} {s : σ} {Q : α → σ → Prop} {E : ε → σ → Prop} (h : Wp T m s Q E)
include h

theorem Wp.and {Q' : α → σ → Prop} {E' : ε → σ → Prop} (h' : Wp T m s Q' E') :
    Wp T m s (fun a s' => Q a s' ∧ Q' a s') (fun e s' => E e s' ∧ E' e s') := by
  unfold Wp at *
  cases hm : m s with
  | none => simpa [hm] using h
  | some r =>
    obtain ⟨r, s'⟩ := r
    rw [hm] at h h'
    cases r with
    | error e => exact ⟨h, h'⟩
    | ok a => exact ⟨h, h'⟩

theorem Wp.of_run {r : Except ε α} {s' : σ} (hrun : m s = some (r, s')) :
    (∀ a, r = .ok a → Q a s') ∧ ∀ e, r = .error e → E e s' := by
  unfold Wp at h
  rw [hrun] at h
  cases r with
  | error e => exact ⟨by simp, by rintro e' ⟨⟩; exact h⟩
  | ok a => exact ⟨by rintro a' ⟨⟩; exact h, by simp⟩

theorem Wp.and_run :
    Wp T m s (fun a s' => Q a s' ∧ m s = some (.ok a, s'))
      (fun e s' => E e s' ∧ m s = some (.error e, s')) := by
  unfold Wp at *
  cases hm : m s with
  | none => simpa [hm] using h
  | some r =>
    obtain ⟨r, s'⟩ := r
    rw [hm] at h
    cases r with
    | error e => exact ⟨h, rfl⟩
    | ok a => exact ⟨h, rfl⟩

end

theorem Wp.and_after {m : Prog σ ε α} {s : σ} {Q : α → σ → Prop} {E : ε → σ → Prop}
    (h : Wp T m s Q E) :
    Wp T m s (fun a s' => Q a s' ∧ s' = m.after s) (fun e s' => E e s' ∧ s' = m.after s) :=
  h.and_run.mono (fun _ _ h' => ⟨h'.1, (result_after h'.2).2⟩)
    fun _ _ h' => ⟨h'.1, (result_after h'.2).2⟩

/-- A program goes on where a run of its first part ends. -/
theorem wp_bind_of_run {m : Prog σ ε α} {f : α → Prog σ ε β} {s s' : σ} {a : α}
    {Q : β → σ → Prop} {E : ε → σ → Prop} (hrun : m s = some (.ok a, s')) :
    Wp T (m >>= f) s Q E ↔ Wp T (f a) s' Q E := by
  rw [wp_bind]
  unfold Wp
  rw [hrun]

/-- A program that may not stop has a result. -/
theorem Wp.exists_run {m : Prog σ ε α} {s : σ} {Q : α → σ → Prop} {E : ε → σ → Prop}
    (h : Wp False m s Q E) : ∃ r s', m s = some (r, s') := by
  unfold Wp at h
  cases hm : m s with
  | none => simp [hm] at h
  | some r => exact ⟨r.1, r.2, rfl⟩

/-- Whatever the outcome, the state ends in `I`. -/
abbrev Keeps (T : Prop) (m : Prog σ ε α) (s : σ) (I : σ → Prop) : Prop :=
  Wp T m s (fun _ => I) (fun _ => I)

variable {I : σ → Prop} {f : β → Prog σ ε Unit}

theorem keeps_mono {m : Prog σ ε α} {s : σ} {J : σ → Prop} (h : Keeps T m s I)
    (hIJ : ∀ s', I s' → J s') : Keeps T m s J :=
  Wp.mono h (fun _ s' => hIJ s') fun _ s' => hIJ s'

theorem keeps_of_run {m : Prog σ ε α} {s s' : σ} {I : σ → Prop} {r : Except ε α}
    (h : Keeps T m s I) (hrun : m s = some (r, s')) : I s' := by
  obtain ⟨hok, herr⟩ := Wp.of_run h hrun
  cases r with
  | error e => exact herr e rfl
  | ok a => exact hok a rfl

/-- The loop rule: `I` speaks about the elements still to come. -/
theorem wp_forEach {I : List β → σ → Prop} {E : ε → σ → Prop}
    (hstep : ∀ x xs s, I (x :: xs) s → Wp T (f x) s (fun _ s' => I xs s') E) :
    ∀ xs s, I xs s → Wp T (forEach xs f) s (fun _ s' => I [] s') E := by
  intro xs
  induction xs with
  | nil =>
    intro s hI
    exact hI
  | cons x xs ih =>
    intro s hI
    rw [forEach, wp_bind]
    exact (hstep x xs s hI).mono (fun _ s' hs' => ih s' hs') fun _ _ he => he

/-- A loop whose body keeps `I` for every element keeps `I`. -/
theorem keeps_forEach {xs : List β} {s : σ} (hI : I s)
    (hstep : ∀ x ∈ xs, ∀ s', I s' → Keeps T (f x) s' I) : Keeps T (forEach xs f) s I := by
  induction xs generalizing s with
  | nil => exact hI
  | cons x xs ih =>
    show Wp T (forEach (x :: xs) f) s (fun _ => I) (fun _ => I)
    rw [forEach, wp_bind]
    refine Wp.mono (hstep x List.mem_cons_self s hI) (fun _ s' hs' => ?_) fun _ _ he => he
    exact ih hs' fun y hy => hstep y (List.mem_cons_of_mem _ hy)

/-- Each element meets `C` in the state in which its turn begins. -/
def MeetsAlong (C : β → σ → Prop) (f : β → Prog σ ε Unit) : List β → σ → Prop
  | [], _ => True
  | x :: xs, s => C x s ∧ MeetsAlong C f xs ((f x).after s)

instance decidableMeetsAlong {C : β → σ → Prop} {f : β → Prog σ ε Unit}
    [∀ x s, Decidable (C x s)] : ∀ xs s, Decidable (MeetsAlong C f xs s)
  | [], _ => isTrue trivial
  | x :: xs, s => @instDecidableAnd _ _ _ (decidableMeetsAlong xs ((f x).after s))

/-- The rule for runs whose every step meets a condition. -/
theorem keeps_run {C : β → σ → Prop} (hstep : ∀ x s, I s → C x s → Keeps T (f x) s I)
    (xs : List β) {s : σ} (hI : I s) (hC : MeetsAlong C f xs s) : Keeps T (forEach xs f) s I := by
  induction xs generalizing s with
  | nil => exact hI
  | cons x xs ih =>
    show Wp T (forEach (x :: xs) f) s (fun _ => I) (fun _ => I)
    rw [forEach, wp_bind]
    refine (hstep x s hI hC.1).and_after.mono (fun _ s' hs' => ?_) fun _ _ he => he.1
    exact ih hs'.1 (hs'.2 ▸ hC.2)

end Rules

end EffectProgram
