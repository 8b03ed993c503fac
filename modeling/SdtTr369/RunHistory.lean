import Mathlib.Data.List.Basic
import Mathlib.Data.List.Induction

/-!
# What has happened in a run

A run takes one step after the other from a first state and may stop. A fact
about the history of a run says that some step has started something and no
later step has stopped it. The rules take a run apart from its end.
-/

namespace RunHistory

open List Option

variable {σ ι : Type} {f : ι → σ → Option σ} {starts stops : σ → ι → Prop} {s₀ s : σ}
  {steps : List ι}

def run (f : ι → σ → Option σ) (steps : List ι) (s : σ) : Option σ :=
  steps.foldlM (fun s i => f i s) s

/-- A step has started it, and no later step has stopped it. Each step is asked
in the state in which it is taken. -/
def Since (f : ι → σ → Option σ) (starts stops : σ → ι → Prop) (s₀ : σ) (steps : List ι) : Prop :=
  ∃ before i after s, steps = before ++ i :: after ∧ run f before s₀ = some s ∧ starts s i ∧
    ∀ middle j rest s', after = middle ++ j :: rest →
      run f (before ++ i :: middle) s₀ = some s' → ¬ stops s' j

@[simp] theorem run_nil (f : ι → σ → Option σ) (s : σ) : run f [] s = some s := rfl

theorem run_cons (f : ι → σ → Option σ) (steps : List ι) (i : ι) (s : σ) :
    run f (i :: steps) s = (f i s).bind (run f steps) := foldlM_cons

theorem run_snoc (f : ι → σ → Option σ) (steps : List ι) (i : ι) (s : σ) :
    run f (steps ++ [i]) s = (run f steps s).bind (f i) := by
  simp only [run, foldlM_append, foldlM_cons, foldlM_nil, bind_eq_bind]
  congr 1
  funext s
  exact bind_fun_some _

/-- What holds at first and is kept by every step holds in the end of a run. -/
theorem run_induction {I : List ι → σ → Prop} (hfirst : I [] s₀)
    (hstep : ∀ steps s i s', run f steps s₀ = some s → I steps s → f i s = some s' →
      I (steps ++ [i]) s') :
    ∀ steps s, run f steps s₀ = some s → I steps s := by
  intro steps
  induction steps using List.reverseRecOn with
  | nil =>
    rintro s ⟨⟩
    exact hfirst
  | append_singleton steps i ih =>
    intro s' hrun
    rw [run_snoc, bind_eq_some_iff] at hrun
    obtain ⟨s, hs, hi⟩ := hrun
    exact hstep steps s i s' hs (ih s hs) hi

/-- Every step meets `C` in the state in which it is taken. -/
def RunMeets (f : ι → σ → Option σ) (C : σ → ι → Prop) : List ι → σ → Prop
  | [], _ => True
  | i :: steps, s => C s i ∧ ∀ s', f i s = some s' → RunMeets f C steps s'

instance decidableRunMeets {C : σ → ι → Prop} [∀ s i, Decidable (C s i)] :
    ∀ (steps : List ι) (s : σ), Decidable (RunMeets f C steps s)
  | [], _ => isTrue trivial
  | i :: steps, s =>
    have : Decidable (∀ s', f i s = some s' → RunMeets f C steps s') :=
      match h : f i s with
      | none => isTrue fun _ hs' => by cases hs'
      | some s' => @decidable_of_iff _ (RunMeets f C steps s') (by simp)
          (decidableRunMeets steps s')
    inferInstanceAs (Decidable (C s i ∧ _))

@[simp] theorem runMeets_nil (f : ι → σ → Option σ) (C : σ → ι → Prop) (s : σ) :
    RunMeets f C [] s := trivial

variable {C : σ → ι → Prop} {α : Type} {P : List α → α → Prop} {log : List α}

theorem runMeets_snoc {i : ι} :
    ∀ {steps : List ι} {s₀ : σ}, run f steps s₀ = some s →
      (RunMeets f C (steps ++ [i]) s₀ ↔ RunMeets f C steps s₀ ∧ C s i) := by
  intro steps
  induction steps with
  | nil =>
    rintro s₀ ⟨⟩
    simp [RunMeets]
  | cons j steps ih =>
    intro s₀ hrun
    rw [run_cons, bind_eq_some_iff] at hrun
    obtain ⟨s₁, hj, hrun⟩ := hrun
    simp only [cons_append, RunMeets, hj, Option.some.injEq, forall_eq', ih hrun, and_assoc]

theorem RunMeets.of_append {before after : List ι} :
    ∀ {s : σ}, RunMeets f C (before ++ after) s → RunMeets f C before s := by
  induction before with
  | nil => exact fun {s} _ => trivial
  | cons i before ih => exact fun {s} h => ⟨h.1, fun s' hi => ih (h.2 s' hi)⟩

theorem runMeets_of_forall (h : ∀ s i, C s i) :
    ∀ {steps : List ι} {s : σ}, RunMeets f C steps s := by
  intro steps
  induction steps with
  | nil => exact fun {s} => trivial
  | cons i steps ih => exact fun {s} => ⟨h s i, fun _ _ => ih⟩

/-- Two conditions that agree wherever a run that meets the first can get. -/
theorem runMeets_congr {D : σ → ι → Prop} {I : σ → Prop} (hcongr : ∀ s i, I s → (C s i ↔ D s i))
    (hstep : ∀ s i s', I s → C s i → f i s = some s' → I s') :
    ∀ {steps : List ι} {s : σ}, I s → (RunMeets f C steps s ↔ RunMeets f D steps s) := by
  intro steps
  induction steps with
  | nil => exact fun {s} _ => Iff.rfl
  | cons i steps ih =>
    intro s hI
    rw [RunMeets, RunMeets, ← hcongr s i hI]
    apply and_congr_right
    intro hC
    exact forall_congr' fun s' => imp_congr_right fun hi => ih (hstep s i s' hI hC hi)

/-- What every step keeps that meets `C` is kept by a run whose steps all do. -/
theorem run_keeps {I : σ → Prop} (hstep : ∀ s i s', I s → C s i → f i s = some s' → I s') :
    ∀ {steps : List ι} {s₀ : σ}, I s₀ → RunMeets f C steps s₀ → run f steps s₀ = some s → I s := by
  intro steps
  induction steps with
  | nil =>
    rintro s₀ hI - ⟨⟩
    exact hI
  | cons i steps ih =>
    intro s₀ hI hmeets hrun
    rw [run_cons, bind_eq_some_iff] at hrun
    obtain ⟨s₁, hi, hrun⟩ := hrun
    exact ih (hstep s₀ i s₁ hI hmeets.1 hi) (hmeets.2 s₁ hi) hrun

/-- Every entry of a log satisfies `P` together with the entries before it. -/
def Along {α : Type} (P : List α → α → Prop) (log : List α) : Prop :=
  ∀ before e after, log = before ++ e :: after → P before e

@[simp] theorem along_nil (P : List α → α → Prop) : Along P [] := by
  intro before e after hsplit
  simp at hsplit

theorem along_snoc {e : α} : Along P (log ++ [e]) ↔ Along P log ∧ P log e := by
  constructor
  · intro h
    refine ⟨?_, h log e [] rfl⟩
    rintro before e' after rfl
    exact h before e' (after ++ [e]) (by simp)
  · rintro ⟨h, he⟩ before e' after hsplit
    rcases eq_nil_or_concat after with rfl | ⟨after, last, rfl⟩
    · obtain ⟨rfl, hlast⟩ := append_inj' hsplit rfl
      cases hlast
      exact he
    · rw [concat_eq_append, ← cons_append, ← append_assoc] at hsplit
      obtain ⟨rfl, -⟩ := append_inj' hsplit rfl
      exact h before e' after rfl

theorem Along.last {e : α} (h : Along P log) (he : e ∈ log.getLast?) : P log.dropLast e :=
  h log.dropLast e [] (dropLast_append_getLast? e he).symm

/-- Entries that satisfy `P` after any others. -/
theorem Along.append {es : List α} (h : Along P log) (hes : ∀ e ∈ es, ∀ before, P before e) :
    Along P (log ++ es) := by
  induction es using List.reverseRecOn with
  | nil => simpa using h
  | append_singleton es e ih =>
    rw [← append_assoc, along_snoc]
    exact ⟨ih fun e' he' => hes e' (mem_append_left _ he'), hes e (by simp) _⟩

theorem Along.imp {Q : List α → α → Prop} (h : Along P log)
    (himp : ∀ before e, P before e → Q before e) : Along Q log :=
  fun before e after hsplit => himp before e (h before e after hsplit)

/-- A condition on the state that comes to one on the steps before. -/
theorem runMeets_iff_along {P : List ι → ι → Prop}
    (htotal : ∀ steps, ∃ s, run f steps s₀ = some s)
    (hcongr : ∀ steps s i, run f steps s₀ = some s → (C s i ↔ P steps i)) (steps : List ι) :
    RunMeets f C steps s₀ ↔ Along P steps := by
  induction steps using List.reverseRecOn with
  | nil => simp
  | append_singleton steps i ih =>
    obtain ⟨s, hrun⟩ := htotal steps
    rw [runMeets_snoc hrun, along_snoc, ih, hcongr steps s i hrun]

theorem not_since_nil : ¬ Since f starts stops s₀ [] := by
  rintro ⟨before, i, after, _, hsplit, -⟩
  simp at hsplit

theorem since_snoc (hrun : run f steps s₀ = some s) (i : ι) :
    Since f starts stops s₀ (steps ++ [i]) ↔
      starts s i ∨ Since f starts stops s₀ steps ∧ ¬ stops s i := by
  constructor
  · rintro ⟨before, j, after, s₁, hsplit, hs₁, hstart, hstop⟩
    rcases eq_nil_or_concat after with rfl | ⟨after, last, rfl⟩
    · obtain ⟨rfl, hlast⟩ := append_inj' hsplit rfl
      cases hlast
      rw [hrun] at hs₁
      cases hs₁
      exact .inl hstart
    · rw [concat_eq_append, ← cons_append, ← append_assoc] at hsplit
      obtain ⟨rfl, hlast⟩ := append_inj' hsplit rfl
      cases hlast
      refine .inr ⟨⟨before, j, after, s₁, rfl, hs₁, hstart, ?_⟩, ?_⟩
      · intro middle k rest s' hafter
        exact hstop middle k (rest ++ [i]) s' (by simp [hafter])
      · exact hstop after i [] s (by simp) hrun
  · rintro (hstart | ⟨⟨before, j, after, s₁, rfl, hs₁, hstart, hstop⟩, hnot⟩)
    · exact ⟨steps, i, [], s, rfl, hrun, hstart, by simp⟩
    · refine ⟨before, j, after ++ [i], s₁, by simp, hs₁, hstart, ?_⟩
      intro middle k rest s' hafter hs'
      rcases eq_nil_or_concat rest with rfl | ⟨rest, last, rfl⟩
      · obtain ⟨rfl, hlast⟩ := append_inj' hafter rfl
        cases hlast
        rw [hrun] at hs'
        cases hs'
        exact hnot
      · rw [concat_eq_append, ← cons_append, ← append_assoc] at hafter
        obtain ⟨rfl, -⟩ := append_inj' hafter rfl
        exact hstop middle k rest s' rfl hs'

/-- After a step that stops it, nothing has started it again. -/
theorem not_since_stopped {after : List ι} {i : ι} (hstop : ∀ s, stops s i)
    (hafter : ∀ j ∈ i :: after, ∀ s, ¬ starts s j) :
    ∀ {s}, run f (steps ++ i :: after) s₀ = some s →
      ¬ Since f starts stops s₀ (steps ++ i :: after) := by
  induction after using List.reverseRecOn with
  | nil =>
    intro s hrun hsince
    rw [run_snoc, bind_eq_some_iff] at hrun
    obtain ⟨s₁, hs₁, -⟩ := hrun
    rcases (since_snoc hs₁ i).mp hsince with hstart | ⟨-, hnot⟩
    · exact hafter i (by simp) s₁ hstart
    · exact hnot (hstop s₁)
  | append_singleton after j ih =>
    intro s hrun hsince
    rw [← cons_append, ← append_assoc] at hrun hsince
    rw [run_snoc, bind_eq_some_iff] at hrun
    obtain ⟨s₁, hs₁, -⟩ := hrun
    rcases (since_snoc hs₁ j).mp hsince with hstart | ⟨hsince, -⟩
    · exact hafter j (by simp) s₁ hstart
    · refine ih (fun j' hj' => hafter j' ?_) hs₁ hsince
      rw [← cons_append]
      exact mem_append_left _ hj'

end RunHistory
