import SdtTr369.EffectProgram

/-!
# Frames of programs

A frame is a reflexive and transitive relation between states. A program is
within a frame when all its runs, failed ones included, end in a state that is
related to the first one. What a program is within follows from its parts.
-/

namespace EffectProgram

open Prog

variable {σ ε ε' α β : Type}

structure IsFrame (R : σ → σ → Prop) : Prop where
  refl : ∀ s, R s s
  trans : ∀ {s t u}, R s t → R t u → R s u

def Within (R : σ → σ → Prop) (m : Prog σ ε α) : Prop := ∀ s, Keeps True m s (R s)

variable {m : Prog σ ε α} {s s' : σ} {r : Except ε α} {f : α → Prog σ ε β}

theorem Within.mono {R R' : σ → σ → Prop} (h : Within R m) (hRR' : ∀ s s', R s s' → R' s s') :
    Within R' m :=
  fun s => keeps_mono (h s) (hRR' s)

theorem Within.of_run {R : σ → σ → Prop} (h : Within R m) (hrun : m s = some (r, s')) :
    R s s' := keeps_of_run (h s) hrun

theorem within_halt (R : σ → σ → Prop) : Within R (halt : Prog σ ε α) := fun _ => trivial

theorem within_update {R : σ → σ → Prop} {f : σ → σ} (h : ∀ s, R s (f s)) :
    Within R (update f : Prog σ ε Unit) := h

section Rules

variable {R : σ → σ → Prop} (hR : IsFrame R)

include hR

theorem within_pure (a : α) : Within R (pure a : Prog σ ε α) := hR.refl

theorem within_fail (e : ε) : Within R (fail e : Prog σ ε α) := hR.refl

theorem within_read (f : σ → α) : Within R (read f : Prog σ ε α) := hR.refl

theorem within_require (c : Bool) : Within R (require c : Prog σ ε Unit) := by
  intro s
  rw [Keeps, wp_require]
  split
  · exact hR.refl s
  · trivial

theorem within_bind (hm : Within R m) (hf : ∀ a, Within R (f a)) : Within R (m >>= f) := by
  intro s
  rw [Keeps, wp_bind]
  refine Wp.mono (hm s) (fun a s' hs' => ?_) fun _ _ h => h
  exact keeps_mono (hf a s') fun _ h => hR.trans hs' h

theorem within_forEach {xs : List β} {f : β → Prog σ ε Unit} (h : ∀ x ∈ xs, Within R (f x)) :
    Within R (forEach xs f) := by
  intro s
  refine keeps_forEach (hR.refl s) fun x hx s' hs' => ?_
  exact keeps_mono (h x hx s') fun _ h => hR.trans hs' h

omit hR in
theorem within_attempt (hm : Within R m) : Within R (attempt m : Prog σ ε' (Except ε α)) := by
  intro s
  rw [Keeps, wp_attempt]
  exact hm s

omit hR in
theorem within_ignore (hm : Within R m) : Within R (ignore m : Prog σ ε' Unit) := by
  intro s
  rw [Keeps, wp_ignore]
  exact hm s

/-- A program that does not end with an error. -/
def Safely (R : σ → σ → Prop) (m : Prog σ ε α) : Prop :=
  ∀ s, Wp True m s (fun _ => R s) fun _ _ => False

theorem safely_pure (a : α) : Safely R (pure a : Prog σ ε α) := hR.refl

theorem safely_bind (hm : Safely R m) (hf : ∀ a, Safely R (f a)) : Safely R (m >>= f) := by
  intro s
  rw [wp_bind]
  refine (hm s).mono (fun a s' hs' => ?_) fun _ _ h => h
  exact (hf a s').mono (fun _ _ h => hR.trans hs' h) fun _ _ h => h

omit hR in
theorem safely_attempt (hm : Within R m) : Safely R (attempt m : Prog σ ε' (Except ε α)) := by
  intro s
  rw [wp_attempt]
  exact hm s

omit hR in
theorem Safely.mono {R' : σ → σ → Prop} (h : Safely R m) (hRR' : ∀ s s', R s s' → R' s s') :
    Safely R' m :=
  fun s => (h s).mono (fun _ s' => hRR' s s') fun _ _ h => h

end Rules

/-! ## Programs one behind the other -/

theorem bind_run {a : α} (h : m s = some (.ok a, s')) : (m >>= f) s = f a s' := by
  show Prog.bind m f s = _
  rw [Prog.bind, h]

theorem bind_error {e : ε} (h : m s = some (.error e, s')) : (m >>= f) s = some (.error e, s') := by
  show Prog.bind m f s = _
  rw [Prog.bind, h]

theorem attempt_run (h : m s = some (r, s')) :
    (attempt m : Prog σ ε' (Except ε α)) s = some (.ok r, s') := by
  rw [attempt, h]
  rfl

theorem ignore_run (h : m s = some (r, s')) :
    (ignore m : Prog σ ε' Unit) s = some (.ok (), s') := by
  rw [ignore, bind_run (attempt_run h)]
  rfl

theorem bind_none (h : m s = none) : (m >>= f) s = none := by
  show Prog.bind m f s = _
  rw [Prog.bind, h]

theorem bind_ret (m : Prog σ ε α) (s : σ) : Prog.bind m Prog.ret s = m s := by
  unfold Prog.bind
  cases m s with
  | none => rfl
  | some r =>
    obtain ⟨r, s'⟩ := r
    cases r <;> rfl

theorem bind_bind {γ : Type} (m : Prog σ ε α) (f : α → Prog σ ε β) (g : β → Prog σ ε γ) (s : σ) :
    Prog.bind (Prog.bind m f) g s = Prog.bind m (fun a => Prog.bind (f a) g) s := by
  unfold Prog.bind
  cases m s with
  | none => rfl
  | some r =>
    obtain ⟨r, s'⟩ := r
    cases r <;> rfl

instance : LawfulMonad (Prog σ ε) :=
  LawfulMonad.mk' _ (fun m => funext (bind_ret m)) (fun _ _ => rfl)
    fun m f g => funext (bind_bind m f g)

/-- A run of two programs ends with an error of the first or goes on with its value. -/
theorem bind_cases {r : Except ε β} (h : (m >>= f) s = some (r, s')) :
    (∃ e, m s = some (.error e, s') ∧ r = .error e) ∨
      ∃ a s₁, m s = some (.ok a, s₁) ∧ f a s₁ = some (r, s') := by
  cases hm : m s with
  | none =>
    rw [bind_none hm] at h
    cases h
  | some first =>
    obtain ⟨first, s₁⟩ := first
    cases first with
    | error e =>
      rw [bind_error hm] at h
      cases h
      exact .inl ⟨e, rfl, rfl⟩
    | ok a => exact .inr ⟨a, s₁, rfl, (bind_run hm).symm.trans h⟩

/-- A run of two programs that ends with a value passes through a value of the first. -/
theorem bind_ok {b : β} (h : (m >>= f) s = some (.ok b, s')) :
    ∃ a s₁, m s = some (.ok a, s₁) ∧ f a s₁ = some (.ok b, s') := by
  obtain ⟨e, -, he⟩ | hok := bind_cases h
  · cases he
  · exact hok

end EffectProgram
