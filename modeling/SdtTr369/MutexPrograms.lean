import SdtTr369.ProgramFrames

/-!
# Programs with a recursive mutex

The state of one thread with the number of times it holds the mutex. A release of a mutex
that is not held has no effect but is remembered. `Moves n d m` says that `m`, started at a
depth of at least `n`, ends `d` higher, with no such release; it is put together from the
moves of the parts.
-/

namespace MutexPrograms

open EffectProgram Prog

variable {σ α β : Type}

structure Locked (σ : Type) where
  depth : Nat
  /-- The mutex was released by a thread that does not hold it. -/
  stray : Bool
  state : σ

/-- A function that gives its error codes as values. -/
abbrev Act (σ α : Type) : Type := Prog (Locked σ) Empty α

def acquire : Act σ Unit := .update fun s => { s with depth := s.depth + 1 }

def release : Act σ Unit := .update fun s =>
  if s.depth = 0 then { s with stray := true } else { s with depth := s.depth - 1 }

def get (f : σ → α) : Act σ α := .read fun s => f s.state

def modify (f : σ → σ) : Act σ Unit := .update fun s => { s with state := f s.state }

/-- A step that ends the process where it has no next state. -/
def tryModify (f : σ → Option (α × σ)) : Act σ α := fun s =>
  (f s.state).map fun r => (.ok r.1, { s with state := r.2 })

/-- What a program does to the depth. -/
def Moves (n : Nat) (d : Int) (m : Act σ α) : Prop :=
  ∀ s, n ≤ s.depth → ∀ a s', m s = some (.ok a, s') →
    (s'.depth : Int) = s.depth + d ∧ s'.stray = s.stray

/-- The program gives back the mutex as often as it takes it. -/
abbrev Balanced (m : Act σ α) : Prop := Moves 0 0 m

/-- The program gives back the mutex once more than it takes it. -/
abbrev Releases (m : Act σ α) : Prop := Moves 1 (-1) m

section Rules

variable {n n' : Nat} {d d' : Int} {m : Act σ α} {f : α → Act σ β}

theorem Moves.mono (h : Moves n d m) (hle : n ≤ n') : Moves n' d m :=
  fun s hs => h s (Nat.le_trans hle hs)

theorem moves_pure (a : α) : Moves n 0 (pure a : Act σ α) := by
  rintro s - a' s' hrun
  cases hrun
  exact ⟨(Int.add_zero _).symm, rfl⟩

theorem moves_get (f : σ → α) : Moves n 0 (get f) := by
  rintro s - a' s' hrun
  cases hrun
  exact ⟨(Int.add_zero _).symm, rfl⟩

theorem moves_modify (f : σ → σ) : Moves n 0 (modify f) := by
  rintro s - a' s' hrun
  cases hrun
  exact ⟨(Int.add_zero _).symm, rfl⟩

theorem moves_tryModify (f : σ → Option (α × σ)) : Moves n 0 (tryModify f) := by
  rintro s - a' s' hrun
  obtain ⟨r, -, heq⟩ := Option.map_eq_some_iff.mp hrun
  cases heq
  exact ⟨(Int.add_zero _).symm, rfl⟩

theorem moves_require (c : Bool) : Moves n 0 (require c : Act σ Unit) := by
  rintro s - a' s' hrun
  rw [require] at hrun
  split at hrun
  · cases hrun
    exact ⟨(Int.add_zero _).symm, rfl⟩
  · cases hrun

theorem moves_acquire : Moves n 1 (acquire : Act σ Unit) := by
  rintro s - a' s' hrun
  cases hrun
  exact ⟨Int.natCast_succ s.depth, rfl⟩

theorem moves_release : Releases (release : Act σ Unit) := by
  intro s hs a' s' hrun
  rw [release, update, if_neg (by omega)] at hrun
  cases hrun
  exact ⟨by simp only; omega, rfl⟩

theorem moves_bind (hm : Moves n d m) (hf : ∀ a, Moves n' d' (f a)) (hle : (n' : Int) ≤ n + d) :
    Moves n (d + d') (m >>= f) := by
  intro s hs b s' hrun
  obtain ⟨a, s₁, hfirst, hrest⟩ := bind_ok hrun
  obtain ⟨hdepth, hstray⟩ := hm s hs a s₁ hfirst
  obtain ⟨hdepth', hstray'⟩ := hf a s₁ (by omega) b s' hrest
  exact ⟨by omega, hstray'.trans hstray⟩

/-- A step that leaves the depth, and then the rest. -/
theorem moves_next (hm : Moves n 0 m) (hf : ∀ a, Moves n d (f a)) : Moves n d (m >>= f) := by
  have h := moves_bind hm hf (by omega)
  rwa [Int.zero_add] at h

/-- The last release, and then what is done without the mutex. -/
theorem releases_then (hm : Balanced m) : Releases (release >>= fun _ => m) := by
  have h := moves_bind moves_release (fun _ => hm) (by omega)
  rwa [Int.add_zero] at h

/-- The mutex is taken, and then given back on every path. -/
theorem moves_section (hm : Releases m) : Moves n 0 (acquire >>= fun _ => m) :=
  moves_bind moves_acquire (fun _ => hm) (by omega)

/-- The mutex is given back for a while, -/
theorem moves_gap (hm : Moves 0 1 m) : Moves 1 0 (release >>= fun _ => m) :=
  moves_bind moves_release (fun _ => hm) (by omega)

/-- and taken again. -/
theorem moves_again (hm : Moves 1 0 m) : Moves n 1 (acquire >>= fun _ => m) := by
  have h := moves_bind (n := n) moves_acquire (fun _ => hm) (by omega)
  rwa [Int.add_zero] at h

theorem moves_forEach {xs : List β} {f : β → Act σ Unit} (hf : ∀ x ∈ xs, Moves n 0 (f x)) :
    Moves n 0 (forEach xs f) := by
  induction xs with
  | nil => exact moves_pure ()
  | cons x xs ih =>
    exact moves_next (hf x List.mem_cons_self) fun _ =>
      ih fun y hy => hf y (List.mem_cons_of_mem x hy)

end Rules

end MutexPrograms
