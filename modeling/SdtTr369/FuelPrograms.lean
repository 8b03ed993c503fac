import SdtTr369.ProgramFrames

/-!
# Programs with fuel

A recursion that does not follow its arguments is a family of programs, one for
each amount of fuel, that ends with the error `bad` when the fuel is used up.
More fuel must not change a run that has finished (`Steady`). Such a family ends
from a state when some fuel is enough, and whether it ends is decided by its
parts (`ends_bind`, `ends_forEach`).
-/

namespace EffectProgram

open Prog

variable {σ ε α β : Type}

def Finished (bad : ε) (m : Prog σ ε α) (s : σ) : Prop := ∀ s', m s ≠ some (.error bad, s')

/-- More fuel changes nothing in a run that has finished. -/
def Continues (bad : ε) (m m' : Prog σ ε α) : Prop := ∀ s, Finished bad m s → m' s = m s

def Steady (bad : ε) (m : Nat → Prog σ ε α) : Prop :=
  ∀ n n', n ≤ n' → Continues bad (m n) (m n')

/-- Some fuel is enough. -/
def Ends (bad : ε) (m : Nat → Prog σ ε α) (s : σ) : Prop := ∃ n, Finished bad (m n) s

section Finished

variable {bad : ε} {m m' : Prog σ ε α} {f f' : α → Prog σ ε β} {s : σ}

theorem finished_of_eq (h : m' s = m s) (hm : Finished bad m s) : Finished bad m' s := by
  intro s' hs'
  exact hm s' (h.symm.trans hs')

theorem finished_of_wp (h : Wp True m s (fun _ _ => True) fun e _ => e ≠ bad) :
    Finished bad m s := by
  intro s' hs'
  exact (h.of_run hs').2 bad rfl rfl

theorem finished_bind : Finished bad (m >>= f) s ↔
    Finished bad m s ∧ ∀ a s', m s = some (.ok a, s') → Finished bad (f a) s' := by
  cases hm : m s with
  | none => simp [Finished, hm, bind_none hm]
  | some r =>
    obtain ⟨r, s₁⟩ := r
    cases r with
    | error e => simp [Finished, hm, bind_error hm]
    | ok a =>
      simp only [Finished, hm, bind_run hm]
      constructor
      · intro h
        refine ⟨by simp, ?_⟩
        rintro a' s' ⟨⟩
        exact h
      · intro h
        exact h.2 a s₁ rfl

/-- A loop finishes when every round does that it comes to. -/
theorem finished_forEach {xs : List β} {f : β → Prog σ ε Unit} :
    Finished bad (forEach xs f) s ↔ ∀ before x after, xs = before ++ x :: after →
      ∀ s', forEach before f s = some (.ok (), s') → Finished bad (f x) s' := by
  induction xs generalizing s with
  | nil =>
    constructor
    · intro _ before x after h
      simp at h
    · intro _ s' hs'
      cases hs'
  | cons y xs ih =>
    rw [forEach, finished_bind]
    constructor
    · rintro ⟨hy, hrest⟩ before x after hxs s' hrun
      cases before with
      | nil =>
        cases hxs
        cases hrun
        exact hy
      | cons z before =>
        cases hxs
        obtain ⟨⟨⟩, s₁, hfirst, hbefore⟩ := bind_ok hrun
        exact ih.mp (hrest () s₁ hfirst) before x after rfl s' hbefore
    · intro h
      refine ⟨h [] y xs rfl s rfl, fun _ s₁ hfirst => ih.mpr ?_⟩
      intro before x after hxs s' hrun
      exact h (y :: before) x after (by rw [hxs]; rfl) s' ((bind_run hfirst).trans hrun)

theorem Continues.refl (m : Prog σ ε α) : Continues bad m m := fun _ _ => rfl

theorem continues_bind (hm : Continues bad m m') (hf : ∀ a, Continues bad (f a) (f' a)) :
    Continues bad (m >>= f) (m' >>= f') := by
  intro s h
  obtain ⟨hfirst, hrest⟩ := finished_bind.mp h
  have heq := hm s hfirst
  cases hrun : m s with
  | none => rw [bind_none hrun, bind_none (heq.trans hrun)]
  | some r =>
    obtain ⟨r, s₁⟩ := r
    cases r with
    | error e => rw [bind_error hrun, bind_error (heq.trans hrun)]
    | ok a =>
      rw [bind_run hrun, bind_run (heq.trans hrun)]
      exact hf a s₁ (hrest a s₁ hrun)

end Finished

section Steady

variable {bad : ε} {m : Nat → Prog σ ε α} {f : Nat → α → Prog σ ε β} {s : σ} {n k : Nat}

theorem steady_const (m : Prog σ ε α) : Steady bad fun _ => m := fun _ _ _ => Continues.refl m

theorem steady_bind (hm : Steady bad m) (hf : ∀ a, Steady bad fun n => f n a) :
    Steady bad fun n => m n >>= f n :=
  fun n n' hle => continues_bind (hm n n' hle) fun a => hf a n n' hle

theorem steady_forEach {f : Nat → β → Prog σ ε Unit} (hf : ∀ x, Steady bad fun n => f n x)
    (xs : List β) : Steady bad fun n => forEach xs (f n) := by
  induction xs with
  | nil => exact steady_const _
  | cons x xs ih => exact steady_bind (hf x) fun _ => ih

theorem Steady.finished (h : Steady bad m) (hle : n ≤ k) (hn : Finished bad (m n) s) :
    Finished bad (m k) s := finished_of_eq (h n k hle s hn) hn

theorem Steady.agree (h : Steady bad m) (hn : Finished bad (m n) s) (hk : Finished bad (m k) s) :
    m n s = m k s := by
  rcases Nat.le_total n k with hle | hle
  · exact (h n k hle s hn).symm
  · exact h k n hle s hk

theorem finished_of_ok {m : Prog σ ε α} {a : α} {s' : σ} (h : m s = some (.ok a, s')) :
    Finished bad m s := by
  intro s'' hs''
  rw [h] at hs''
  cases hs''

/-- What follows a first part finishes, whatever fuel showed the end of that part. -/
theorem Steady.finished_rest (h : Steady bad m) {g : α → Prog σ ε β}
    (hn : Finished bad (m n >>= g) s) {a : α} {s' : σ} (hrun : m k s = some (.ok a, s')) :
    Finished bad (g a) s' := by
  obtain ⟨hfirst, hrest⟩ := finished_bind.mp hn
  exact hrest a s' ((h.agree hfirst (finished_of_ok hrun)).trans hrun)

theorem Steady.finished_round {f : Nat → β → Prog σ ε Unit} (hf : ∀ x, Steady bad fun n => f n x)
    {before after : List β} {x : β} (hn : Finished bad (forEach (before ++ x :: after) (f n)) s)
    {s' : σ} (hrun : forEach before (f k) s = some (.ok (), s')) : Finished bad (f n x) s' := by
  have hrounds := finished_forEach.mp hn
  refine hrounds before x after rfl s' ?_
  have hbefore : Finished bad (forEach before (f n)) s := by
    refine finished_forEach.mpr fun before' y after' hsplit => ?_
    exact hrounds before' y (after' ++ x :: after) (by rw [hsplit]; simp)
  exact ((steady_forEach hf before).agree hbefore (finished_of_ok hrun)).trans hrun

theorem ends_const {m : Prog σ ε α} (h : Finished bad m s) : Ends bad (fun _ => m) s := ⟨0, h⟩

theorem ends_bind (hm : Steady bad m) (hf : ∀ a, Steady bad fun n => f n a) (h : Ends bad m s)
    (hrest : ∀ n a s', m n s = some (.ok a, s') → Ends bad (fun n => f n a) s') :
    Ends bad (fun n => m n >>= f n) s := by
  obtain ⟨n, hn⟩ := h
  cases hrun : m n s with
  | none =>
    refine ⟨n, finished_bind.mpr ⟨hn, fun a s' h => ?_⟩⟩
    rw [hrun] at h
    cases h
  | some r =>
    obtain ⟨r, s₁⟩ := r
    cases r with
    | error e =>
      refine ⟨n, finished_bind.mpr ⟨hn, fun a s' h => ?_⟩⟩
      rw [hrun] at h
      cases h
    | ok a =>
      obtain ⟨k, hk⟩ := hrest n a s₁ hrun
      have hmax := hm.finished (Nat.le_max_left n k) hn
      refine ⟨max n k, finished_bind.mpr ⟨hmax, fun a' s' h => ?_⟩⟩
      rw [hm.agree hmax hn, hrun] at h
      cases h
      exact (hf a).finished (Nat.le_max_right n k) hk

theorem ends_forEach {f : Nat → β → Prog σ ε Unit} (hf : ∀ x, Steady bad fun n => f n x)
    {xs : List β} (hrounds : ∀ before x after, xs = before ++ x :: after → ∀ n s',
      forEach before (f n) s = some (.ok (), s') → Ends bad (fun n => f n x) s') :
    Ends bad (fun n => forEach xs (f n)) s := by
  induction xs generalizing s with
  | nil => exact ⟨0, fun s' hs' => by cases hs'⟩
  | cons x xs ih =>
    refine ends_bind (hf x) (fun _ => steady_forEach hf xs) (hrounds [] x xs rfl 0 s rfl) ?_
    rintro n ⟨⟩ s₁ hfirst
    refine ih fun before y after hxs k s' hrun => ?_
    -- both parts are shown with the same fuel
    have hlast : forEach (x :: before) (f (max n k)) s = some (.ok (), s') := by
      have hx := (hf x n _ (Nat.le_max_left n k) s (finished_of_ok hfirst)).trans hfirst
      have hbefore := (steady_forEach hf before k _ (Nat.le_max_right n k) s₁
        (finished_of_ok hrun)).trans hrun
      exact (bind_run hx).trans hbefore
    exact hrounds (x :: before) y after (by rw [hxs]; rfl) _ s' hlast

end Steady

end EffectProgram
