import SdtTr369.ListTexts

/-!
# Trimming in place

`TEXT_UTILS_TrimBuffer` on the cells of a string. It looks for the first and the last character
that is not blank, writes a terminator behind the last, and returns the cell of the first.
-/

namespace TrimBuffers

open UspTypes ExprVector CBuffers List

/-- The loop of `TEXT_UTILS_TrimBuffer`, with `first` and `last`. -/
def trimLoop (i : Nat) (first : Option Nat) (last : Nat) : Str → Option Nat × Nat
  | [] => (first, last)
  | c :: s =>
    if isBlank c then trimLoop (i + 1) first last s
    else trimLoop (i + 1) (first.or (some i)) i s

/-- `TEXT_UTILS_TrimBuffer` from a cell on. -/
def trimAt (buf : Buffer) (i : Nat) : Option (Buffer × Nat) :=
  (stringAt buf i).bind fun s =>
    match trimLoop i none i s with
    | (none, last) => (poke buf last nul).map (·, last)
    | (some first, last) => (poke buf (last + 1) nul).map (·, first)

section Loop

variable {s blanks core : Str} {first : Option Nat} {i last : Nat}

theorem trimLoop_blanks (h : ∀ c ∈ blanks, isBlank c = true) (i : Nat) (first : Option Nat)
    (last : Nat) (s : Str) :
    trimLoop i first last (blanks ++ s) = trimLoop (i + blanks.length) first last s := by
  induction blanks generalizing i with
  | nil => rfl
  | cons c blanks ih =>
    obtain ⟨hc, hblanks⟩ := List.forall_mem_cons.mp h
    rw [cons_append, trimLoop, if_pos hc, ih hblanks, length_cons]
    congr 1
    omega

/-- Behind the first character that is not blank only the last one changes. -/
theorem trimLoop_core (first : Nat) (hlast : ∀ c, core.getLast? = some c → isBlank c = false)
    (hne : core ≠ []) (i last : Nat) (s : Str) :
    trimLoop i (some first) last (core ++ s) =
      trimLoop (i + core.length) (some first) (i + core.length - 1) s := by
  induction core generalizing i last with
  | nil => exact (hne rfl).elim
  | cons c core ih =>
    cases core with
    | nil =>
      rw [singleton_append, trimLoop, hlast c rfl, if_neg Bool.false_ne_true]
      rfl
    | cons d core =>
      have hmore := ih (fun e he => hlast e (by rwa [getLast?_cons_cons])) (cons_ne_nil _ _)
      rw [cons_append, trimLoop]
      split
      · rw [hmore]
        simp only [length_cons]
        congr 1 <;> omega
      · rw [Option.some_or, hmore]
        simp only [length_cons]
        congr 1 <;> omega

theorem trimLoop_word (hhead : ∀ c, core.head? = some c → isBlank c = false)
    (hlast : ∀ c, core.getLast? = some c → isBlank c = false) (hne : core ≠ []) (i last : Nat)
    (s : Str) : trimLoop i none last (core ++ s) =
      trimLoop (i + core.length) (some i) (i + core.length - 1) s := by
  cases core with
  | nil => exact (hne rfl).elim
  | cons c core =>
    rw [cons_append, trimLoop, hhead c rfl, if_neg Bool.false_ne_true, Option.none_or]
    cases core with
    | nil => rfl
    | cons d core =>
      rw [trimLoop_core i (fun e he => hlast e (by rwa [getLast?_cons_cons]))
        (cons_ne_nil _ _)]
      simp only [length_cons]
      congr 1 <;> omega

end Loop

/-! ## What is left of a string -/

/-- The blanks around the text are cut off. The cells in front of the string and behind its
terminator are as they were. -/
theorem trimAt_eq {text : Str} (h : nul ∉ text) :
    ∃ lead trail, text = lead ++ trimBuffer text ++ trail ∧ (∀ c ∈ lead, isBlank c = true) ∧
      (∀ c ∈ trail, isBlank c = true) ∧ ∀ front rest,
        trimAt (front ++ text ++ nul :: rest) front.length =
          some (front ++ lead ++ trimBuffer text ++ nul :: (trail ++ nul :: rest).tail,
            (front ++ lead).length) := by
  obtain ⟨⟨lead, trail, htext, hlead, htrail⟩, hhead, hlast⟩ := ListTexts.trimBuffer_trimmed text
  generalize trimBuffer text = core at htext hhead hlast
  have hread : ∀ front rest, stringAt (front ++ text ++ nul :: rest) front.length = some text :=
    fun front rest => stringAt_append front h
  by_cases hcore : core = []
  · -- nothing but blanks: the terminator is written at the first cell
    subst hcore
    have hblank : ∀ c ∈ text, isBlank c = true := by
      rw [htext, append_nil]
      exact fun c hc => (List.mem_append.mp hc).elim (hlead c) (htrail c)
    refine ⟨[], text, by simp, by simp, hblank, fun front rest => ?_⟩
    have hloop := trimLoop_blanks hblank front.length none front.length []
    rw [append_nil] at hloop
    rw [trimAt, hread, Option.bind_some, hloop]
    cases text with
    | nil =>
      show (poke (front ++ [] ++ nul :: rest) front.length nul).map _ = _
      rw [append_nil, poke_append]
      simp
    | cons c text =>
      show (poke (front ++ (c :: text) ++ nul :: rest) front.length nul).map _ = _
      rw [append_assoc front, cons_append, poke_append]
      simp
  · refine ⟨lead, trail, htext, hlead, htrail, fun front rest => ?_⟩
    have hpos : 0 < core.length := length_pos_of_ne_nil hcore
    have hloop : trimLoop front.length none front.length text =
        (some (front ++ lead).length, (front ++ lead ++ core).length - 1) := by
      have htail := trimLoop_blanks htrail ((front ++ lead ++ core).length)
        (some (front ++ lead).length) ((front ++ lead ++ core).length - 1) []
      rw [append_nil] at htail
      rw [htext, append_assoc, trimLoop_blanks hlead,
        trimLoop_word hhead hlast hcore, ← length_append, ← length_append, htail]
      rfl
    have hend : (front ++ lead ++ core).length - 1 + 1 = (front ++ lead ++ core).length := by
      simp only [length_append]
      omega
    obtain ⟨c, cells, hcells⟩ : ∃ c cells, trail ++ nul :: rest = c :: cells :=
      exists_cons_of_ne_nil (by simp)
    have hbuf : front ++ text ++ nul :: rest = front ++ lead ++ core ++ c :: cells := by
      rw [htext, ← hcells]
      simp only [append_assoc]
    rw [trimAt, hread, Option.bind_some, hloop, hbuf, hcells]
    show (poke _ ((front ++ lead ++ core).length - 1 + 1) nul).map _ = _
    rw [hend, poke_append]
    rfl

end TrimBuffers
