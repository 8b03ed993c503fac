import SdtTr369.ObjectWalk

/-!
# Alternative names in bulk data reports

`bulkdata_reduce_to_alt_name` walks along a parameter reference and a path that it
resolves to, and gives the alternative name of the reference followed by what sets the
path apart: the instance numbers at operators and the part beyond the reference.
-/

namespace AltNames

open UspTypes ObjectWalk List

/-! ## The function -/

/-- A character stored in a buffer behind the text that is there, unless that is outside
of the buffer. -/
def store (bufLen : Nat) (out : Str) (c : Char) : Option Str :=
  if out.length < bufLen then some (out ++ [c]) else none

/-- The end of a text without the delimiter there. -/
def dropDelimiter (out : Str) : Str := if out.getLast? = some '.' then out.dropLast else out

/-- The part of `bulkdata_reduce_to_alt_name` after its loop. -/
def finishName (bufLen : Nat) (out : Str) : Option (Except Err Str) :=
  if out.length < bufLen then some (.ok (dropDelimiter out)) else none

/-- The reference behind a search expression, where the code stands at its `[`. -/
def skipSearch (s : Str) : Str :=
  match s.dropWhile (· ≠ ']') with
  | [] => s.tail
  | t => t.tail

/-- The loop of `bulkdata_reduce_to_alt_name`. `none`: a character is written outside of
the buffer. -/
def reduceLoop (bufLen : Nat) : Str → Str → Str → Option (Except Err Str)
  | _, [], out => finishName bufLen out
  | s, c :: p, out =>
    if bufLen - 1 ≤ out.length then some (.error .internalError)
    else if s.head? = some c then reduceLoop bufLen s.tail p out
    else if s.head? = some '*' then
      (store bufLen out c).bind fun out =>
        if p.head? = some '.' then
          (store bufLen out '.').bind fun out => reduceLoop bufLen s.tail p out
        else reduceLoop bufLen s p out
    else if s.head? = some '[' then
      (store bufLen out c).bind fun out =>
        if p.head? = some '.' then
          (store bufLen out '.').bind fun out => reduceLoop bufLen (skipSearch s) p out
        else reduceLoop bufLen s p out
    else if out.getLast? = some '.' ∧ c = '.' then reduceLoop bufLen s p out
    else (store bufLen out c).bind fun out => reduceLoop bufLen s p out

/-- `bulkdata_reduce_to_alt_name`. -/
def reduceToAltName (spec path altName : Str) (bufLen : Nat) : Option (Except Err Str) :=
  if altName = [] then some (.ok (path.take (bufLen - 1)))
  else if bufLen < altName.length + 1 then some (.error .internalError)
  else (store bufLen altName '.').bind fun out => reduceLoop bufLen spec path out

/-! ## References and their paths -/

/-- The end of a segment. -/
def AtBoundary (s : Str) : Prop := s = [] ∨ ∃ s', s = '.' :: s'

/-- A parameter reference: operators take whole segments. -/
inductive Reference : Str → Prop where
  | done : Reference []
  | literal {c : Char} {s : Str} : c ≠ '*' → c ≠ '[' → Reference s → Reference (c :: s)
  | wildcard {s : Str} : AtBoundary s → Reference s → Reference ('*' :: s)
  | search {c : Char} {u s : Str} : u.dropWhile (· ≠ ']') = c :: s → AtBoundary s → Reference s →
      Reference ('[' :: u)

/-- The text of an instance number. -/
structure IsNumber (n : Str) : Prop where
  nonempty : n ≠ []
  plain : ∀ c ∈ n, c ≠ '.' ∧ c ≠ '*' ∧ c ≠ '['

/-- The text `r` is the reference with the instance numbers `ns` for its operators. -/
inductive Spells : Str → Str → List Str → Prop where
  | done : Spells [] [] []
  | literal {c : Char} {s r : Str} {ns : List Str} : c ≠ '*' → c ≠ '[' → Spells s r ns →
      Spells (c :: s) (c :: r) ns
  | wildcard {s r n : Str} {ns : List Str} : AtBoundary s → IsNumber n → Spells s r ns →
      Spells ('*' :: s) (n ++ r) (n :: ns)
  | search {c : Char} {u s r n : Str} {ns : List Str} : u.dropWhile (· ≠ ']') = c :: s →
      AtBoundary s → IsNumber n → Spells s r ns → Spells ('[' :: u) (n ++ r) (n :: ns)

/-- The rest of a path begins at a segment when the reference does not end in a dot. -/
def Begins (s rest : Str) : Prop := s = [] ∨ AtBoundary rest ∨ s.getLast? = some '.'

/-- What a path has beyond the reference: it begins at a segment, and has single dots. -/
structure Beyond (spec rest : Str) : Prop where
  begins : Begins spec rest
  dots : ¬['.', '.'] <:+: rest

/-- The part beyond the reference, without the dot that joins it. -/
def leading (rest : Str) : Str := if rest.head? = some '.' then rest.tail else rest

/-- The part beyond the reference without the dots around it. -/
def trimmed (rest : Str) : Str := dropDelimiter (leading rest)

/-- The alternative name, the instance numbers and the part beyond the reference. -/
def nameParts (altName : Str) (ns : List Str) (rest : Str) : List Str :=
  altName :: (ns ++ if trimmed rest = [] then [] else [trimmed rest])

variable {s r r' out rest t spec : Str} {ns ns' : List Str} {bufLen : Nat}

/-- The numbers are as many as the operators. -/
theorem Spells.length_eq (h : Spells s r ns) (h' : Spells s r' ns') : ns.length = ns'.length := by
  induction h generalizing r' ns' with
  | done =>
    cases h'
    rfl
  | literal hstar hopen _ ih =>
    cases h' with
    | literal _ _ h' => exact ih h'
    | wildcard => exact absurd rfl hstar
    | search => exact absurd rfl hopen
  | wildcard _ _ _ ih =>
    cases h' with
    | literal hstar _ _ => exact absurd rfl hstar
    | wildcard _ _ h' => exact congrArg Nat.succ (ih h')
  | search hclosed _ _ _ ih =>
    cases h' with
    | literal _ hopen _ => exact absurd rfl hopen
    | search hclosed' _ _ h' =>
      cases hclosed.symm.trans hclosed'
      exact congrArg Nat.succ (ih h')

/-- A reference and its numbers make one text. -/
theorem Spells.unique (h : Spells s r ns) (h' : Spells s r' ns) : r = r' := by
  induction h generalizing r' with
  | done =>
    cases h'
    rfl
  | literal hstar hopen _ ih =>
    cases h' with
    | literal _ _ h' => rw [ih h']
    | wildcard => exact absurd rfl hstar
    | search => exact absurd rfl hopen
  | wildcard _ _ _ ih =>
    cases h' with
    | literal hstar _ _ => exact absurd rfl hstar
    | wildcard _ _ h' => rw [ih h']
  | search hclosed _ _ _ ih =>
    cases h' with
    | literal _ hopen _ => exact absurd rfl hopen
    | search hclosed' _ _ h' =>
      cases hclosed.symm.trans hclosed'
      rw [ih h']

theorem Spells.numbers (h : Spells s r ns) : ∀ n ∈ ns, IsNumber n := by
  induction h with
  | done => exact nofun
  | literal _ _ _ ih => exact ih
  | wildcard _ hn _ ih => exact List.forall_mem_cons.mpr ⟨hn, ih⟩
  | search _ _ hn _ ih => exact List.forall_mem_cons.mpr ⟨hn, ih⟩

/-! ## The loop -/

/-- The result of the loop: the buffer is too small for this text, or it holds the text. -/
def Gives (bufLen : Nat) (result : Option (Except Err Str)) (out : Str) : Prop :=
  (result = some (.error .internalError) ∧ bufLen ≤ out.length + 1) ∨
    result = some (.ok (dropDelimiter out))

/-- The room that the loop keeps: for the terminator at the end of the path. -/
def HasRoom (bufLen : Nat) (p out : Str) : Prop :=
  out.length ≤ bufLen ∧ (p = [] → out.length < bufLen)

variable {p : Str} {c : Char} (xs : List Str)

/-- The loop gives up in front of a character of the path. -/
theorem gives_full {target : Str} (h : bufLen - 1 ≤ out.length)
    (hlen : out.length ≤ target.length) : Gives bufLen (reduceLoop bufLen s (c :: p) out) target :=
  .inl ⟨by rw [reduceLoop, if_pos h], by omega⟩

theorem store_fits (h : out.length < bufLen) : store bufLen out c = some (out ++ [c]) := if_pos h

theorem dropDelimiter_snoc (out : Str) : dropDelimiter (out ++ ['.']) = out := by
  rw [dropDelimiter, getLast?_concat, if_pos rfl, dropLast_concat]

theorem dropDelimiter_number {n : Str} (hn : IsNumber n) (out : Str) :
    dropDelimiter (out ++ n) = out ++ n := by
  rw [dropDelimiter, getLast?_append_of_ne_nil _ hn.nonempty, if_neg]
  intro hlast
  exact (hn.plain '.' (mem_of_getLast? hlast)).1 rfl

/-- Where the reference goes on behind an operator. -/
def behindOperator (s : Str) : Str := if s.head? = some '*' then s.tail else skipSearch s

/-- One character of a number at an operator. -/
theorem reduceLoop_operator {bufLen : Nat} {s out : Str}
    (hs : s.head? = some '*' ∨ s.head? = some '[') (hstar : c ≠ '*') (hopen : c ≠ '[')
    (hlt : ¬bufLen - 1 ≤ out.length) :
    reduceLoop bufLen s (c :: p) out =
      if p.head? = some '.' then reduceLoop bufLen (behindOperator s) p (out ++ [c] ++ ['.'])
      else reduceLoop bufLen s p (out ++ [c]) := by
  have hfirst : store bufLen out c = some (out ++ [c]) := store_fits (by omega)
  have hsecond : store bufLen (out ++ [c]) '.' = some (out ++ [c] ++ ['.']) :=
    store_fits (by rw [length_append, length_singleton]; omega)
  have hne : s.head? ≠ some c := by
    rcases hs with hs | hs
    · rw [hs]
      exact fun h => hstar (Option.some.inj h).symm
    · rw [hs]
      exact fun h => hopen (Option.some.inj h).symm
  rw [reduceLoop, if_neg hlt, if_neg hne, behindOperator]
  rcases hs with hs | hs
  · simp only [hs, if_true, hfirst, Option.bind_some, hsecond]
  · have hother : ¬(some '[' = some '*') := by decide
    simp only [hs, if_neg hother, if_true, hfirst, Option.bind_some, hsecond]

/-- A number up to the end of its segment. -/
theorem reduceLoop_number {bufLen : Nat} {s p n out target : Str}
    (hs : s.head? = some '*' ∨ s.head? = some '[') (hn : IsNumber n) (hp : AtBoundary p)
    (hlong : (out ++ n).length ≤ target.length)
    (hend : p = [] → dropDelimiter (out ++ n) = dropDelimiter target)
    (hnext : p ≠ [] → HasRoom bufLen p (out ++ n ++ ['.']) →
      Gives bufLen (reduceLoop bufLen (behindOperator s) p (out ++ n ++ ['.'])) target) :
    Gives bufLen (reduceLoop bufLen s (n ++ p) out) target := by
  obtain ⟨hne, hplain⟩ := hn
  induction n generalizing out with
  | nil => exact absurd rfl hne
  | cons c n ih =>
    rw [cons_append]
    by_cases hfull : bufLen - 1 ≤ out.length
    · rw [length_append] at hlong
      exact gives_full hfull (by omega)
    · obtain ⟨-, hstar, hopen⟩ := hplain c mem_cons_self
      have hlen : (out ++ [c]).length = out.length + 1 := length_append
      rw [reduceLoop_operator hs hstar hopen hfull]
      cases n with
      | cons d n =>
        have hd : d ≠ '.' := (hplain d (mem_cons_of_mem _ mem_cons_self)).1
        have hassoc : out ++ c :: d :: n = out ++ [c] ++ d :: n := (append_assoc out [c] _).symm
        rw [hassoc] at hlong hend hnext
        rw [cons_append, head?_cons, if_neg fun h => hd (Option.some.inj h)]
        exact ih hlong hend hnext (cons_ne_nil _ _) fun x hx => hplain x (mem_cons_of_mem _ hx)
      | nil =>
        rcases hp with rfl | ⟨p', rfl⟩
        · rw [nil_append, if_neg (by simp), reduceLoop, finishName, if_pos (by omega),
            hend rfl]
          exact .inr rfl
        · rw [nil_append, head?_cons, if_pos rfl]
          refine hnext (cons_ne_nil _ _) ⟨?_, nofun⟩
          rw [length_append, hlen, length_singleton]
          omega

/-- The copy of the part beyond the reference. -/
theorem reduceLoop_copy (hroom : HasRoom bufLen rest out) (hdots : ¬['.', '.'] <:+: rest)
    (hfirst : out.getLast? = some '.' → rest.head? ≠ some '.') :
    Gives bufLen (reduceLoop bufLen [] rest out) (out ++ rest) := by
  induction rest generalizing out with
  | nil =>
    right
    rw [reduceLoop, finishName, if_pos (hroom.2 rfl), append_nil]
  | cons c rest ih =>
    by_cases hfull : bufLen - 1 ≤ out.length
    · exact gives_full hfull (by simp)
    · have hcopy : ¬(out.getLast? = some '.' ∧ c = '.') := fun h => hfirst h.1 (h.2 ▸ rfl)
      have hlen : (out ++ [c]).length = out.length + 1 := length_append
      rw [reduceLoop, if_neg hfull, if_neg nofun, if_neg nofun, if_neg nofun, if_neg hcopy,
        store_fits (by omega), Option.bind_some]
      have hassoc : out ++ c :: rest = out ++ [c] ++ rest := (append_assoc out [c] rest).symm
      rw [hassoc]
      refine ih ⟨by omega, fun _ => by omega⟩ (fun h => hdots (h.trans (infix_cons infix_rfl)))
        fun hlast hhead => ?_
      rw [getLast?_concat] at hlast
      obtain rfl := Option.some.inj hlast
      cases rest with
      | nil => cases hhead
      | cons d rest =>
        obtain rfl := Option.some.inj hhead
        exact hdots ⟨[], rest, rfl⟩

theorem reduceLoop_beyond (hroom : HasRoom bufLen rest out) (hlast : out.getLast? = some '.')
    (hdots : ¬['.', '.'] <:+: rest) :
    Gives bufLen (reduceLoop bufLen [] rest out) (out ++ leading rest) := by
  by_cases hhead : rest.head? = some '.'
  · obtain ⟨rest, rfl⟩ : ∃ rest', rest = '.' :: rest' := by
      cases rest with
      | nil => cases hhead
      | cons c rest => exact ⟨rest, by rw [Option.some.inj hhead]⟩
    rw [leading, if_pos hhead, tail_cons]
    by_cases hfull : bufLen - 1 ≤ out.length
    · exact gives_full hfull (by simp)
    · rw [reduceLoop, if_neg hfull, if_neg nofun, if_neg nofun, if_neg nofun, if_pos ⟨hlast, rfl⟩]
      refine reduceLoop_copy ⟨by omega, fun _ => by omega⟩
        (fun h => hdots (h.trans (infix_cons infix_rfl))) fun _ hhead' => ?_
      cases rest with
      | nil => cases hhead'
      | cons d rest =>
        obtain rfl := Option.some.inj hhead'
        exact hdots ⟨[], rest, rfl⟩
  · rw [leading, if_neg hhead]
    exact reduceLoop_copy hroom hdots fun _ => hhead

theorem Spells.boundary_append (h : Spells s r ns) (hs : AtBoundary s)
    (hrest : s = [] → AtBoundary rest) : AtBoundary (r ++ rest) := by
  rcases hs with rfl | ⟨s', rfl⟩
  · cases h
    exact hrest rfl
  · cases h
    exact .inr ⟨_, rfl⟩

theorem Spells.of_nil (h : Spells s r ns) (hr : r = []) : s = [] ∧ ns = [] := by
  cases h with
  | done => exact ⟨rfl, rfl⟩
  | literal => cases hr
  | wildcard _ hn _ => exact absurd (List.append_eq_nil_iff.mp hr).1 hn.nonempty
  | search _ _ hn _ => exact absurd (List.append_eq_nil_iff.mp hr).1 hn.nonempty

/-- What remains of a reference ends as the reference does. -/
theorem getLast?_suffix (h : s <:+ t) : s = [] ∨ s.getLast? = t.getLast? := by
  obtain ⟨u, rfl⟩ := h
  by_cases hs : s = []
  · exact .inl hs
  · exact .inr (getLast?_append_of_ne_nil _ hs).symm

theorem Begins.suffix (h : Begins t rest) (hs : s <:+ t) : Begins s rest := by
  rcases getLast?_suffix hs with hnil | hlast
  · exact .inl hnil
  · rcases h with rfl | h
    · exact .inl (List.suffix_nil.mp hs)
    · exact .inr (h.imp_right hlast.trans)

theorem dropDelimiter_length (out : Str) : out.length ≤ (dropDelimiter out).length + 1 := by
  rw [dropDelimiter]
  split
  · rw [length_dropLast]
    omega
  · omega

theorem dropDelimiter_cases (l : Str) : dropDelimiter l = l ∨ l = dropDelimiter l ++ ['.'] := by
  by_cases hlast : l.getLast? = some '.'
  · obtain ⟨front, rfl⟩ := List.getLast?_eq_some_iff.mp hlast
    exact .inr (by rw [dropDelimiter_snoc])
  · exact .inl (if_neg hlast)

theorem searchEnd {u s : Str} {c : Char} (h : u.dropWhile (· ≠ ']') = c :: s) :
    c = ']' ∧ c :: s <:+ u := by
  refine ⟨?_, h ▸ dropWhile_suffix _⟩
  have hhead := head?_dropWhile_not (fun x : Char => decide (x ≠ ']')) u
  rw [h] at hhead
  simpa using hhead

theorem skipSearch_eq {u s : Str} {c : Char} (h : u.dropWhile (· ≠ ']') = c :: s) :
    skipSearch ('[' :: u) = s := by
  rw [skipSearch, dropWhile_cons_of_pos (by decide), h]
  rfl

/-- An operator of the reference, `s` behind it. -/
theorem reduceLoop_segment {bufLen : Nat} {t s r rest n out : Str} {ns : List Str}
    (ht : t.head? = some '*' ∨ t.head? = some '[') (hbehind : behindOperator t = s)
    (hs : AtBoundary s) (hrest : s = [] → AtBoundary rest) (hn : IsNumber n) (h : Spells s r ns)
    (ih : ∀ out : Str, HasRoom bufLen (r ++ rest) out → out.getLast? = some '.' →
      Gives bufLen (reduceLoop bufLen s (r ++ rest) out)
        (out ++ ns.flatMap (fun n => n ++ ['.']) ++ leading rest)) :
    Gives bufLen (reduceLoop bufLen t (n ++ r ++ rest) out)
      (out ++ (n :: ns).flatMap (fun n => n ++ ['.']) ++ leading rest) := by
  have htarget : out ++ (n :: ns).flatMap (fun n => n ++ ['.']) ++ leading rest =
      out ++ n ++ ['.'] ++ ns.flatMap (fun n => n ++ ['.']) ++ leading rest := by
    rw [flatMap_cons]
    simp only [append_assoc]
  rw [htarget, append_assoc]
  refine reduceLoop_number ht hn (h.boundary_append hs hrest) (by simp) (fun hnil => ?_)
    fun _ hroom => ?_
  · -- the path ends with the number, and no delimiter follows it
    obtain ⟨hr, hrest⟩ := List.append_eq_nil_iff.mp hnil
    rw [(h.of_nil hr).2, hrest, flatMap_nil, append_nil, leading, if_neg nofun,
      append_nil, dropDelimiter_snoc, dropDelimiter_number hn]
  · rw [hbehind]
    exact ih _ hroom getLast?_concat

/-- The loop along a reference and a path. -/
theorem reduceLoop_spells (h : Spells s r ns) (hbegins : Begins s rest)
    (hdots : ¬['.', '.'] <:+: rest) (hroom : HasRoom bufLen (r ++ rest) out)
    (hlast : out.getLast? = some '.') :
    Gives bufLen (reduceLoop bufLen s (r ++ rest) out)
      (out ++ ns.flatMap (fun n => n ++ ['.']) ++ leading rest) := by
  induction h generalizing out with
  | done =>
    rw [flatMap_nil, append_nil, nil_append]
    exact reduceLoop_beyond hroom hlast hdots
  | @literal c s r ns hstar hopen h ih =>
    rw [cons_append]
    by_cases hfull : bufLen - 1 ≤ out.length
    · exact gives_full hfull (by simp)
    · rw [reduceLoop, if_neg hfull, head?_cons, if_pos rfl, tail_cons]
      exact ih (hbegins.suffix (suffix_cons c s)) ⟨by omega, fun _ => by omega⟩ hlast
  | @wildcard s r n ns hs hn h ih =>
    refine reduceLoop_segment (.inl rfl) (if_pos rfl) hs ?_ hn h fun out hroom hlast =>
      ih (hbegins.suffix (suffix_cons _ s)) hroom hlast
    rintro rfl
    exact (hbegins.resolve_left nofun).resolve_right (by decide)
  | @search c u s r n ns hclosed hs hn h ih =>
    obtain ⟨rfl, hsuffix⟩ := searchEnd hclosed
    have hbehind : behindOperator ('[' :: u) = s := by
      rw [behindOperator, head?_cons, if_neg (by decide), skipSearch_eq hclosed]
    refine reduceLoop_segment (.inr rfl) hbehind hs ?_ hn h fun out hroom hlast =>
      ih (hbegins.suffix ((suffix_cons _ s).trans (hsuffix.trans (suffix_cons _ u)))) hroom hlast
    rintro rfl
    refine (hbegins.resolve_left nofun).resolve_right fun hdot => ?_
    rcases getLast?_suffix (hsuffix.trans (suffix_cons '[' u)) with hnil | hlast'
    · cases hnil
    · rw [hdot] at hlast'
      exact absurd hlast' (by decide)

/-- A text that ends in a dot does so by its reference. -/
theorem Spells.ends_in_dot (h : Spells spec r ns) (hdot : r.getLast? = some '.') :
    spec.getLast? = some '.' := by
  have hnumber : ∀ {s r n : Str} {ns : List Str}, Spells s r ns → IsNumber n →
      (n ++ r).getLast? = some '.' → r.getLast? = some '.' := by
    intro s r n ns _ hn hlast
    by_cases hr : r = []
    · rw [hr, append_nil] at hlast
      exact absurd rfl (hn.plain '.' (mem_of_getLast? hlast)).1
    · rwa [getLast?_append_of_ne_nil _ hr] at hlast
  have hcons : ∀ {s t : Str}, s <:+ t → s.getLast? = some '.' → t.getLast? = some '.' := by
    intro s t hs hlast
    rcases getLast?_suffix hs with rfl | heq
    · cases hlast
    · exact heq ▸ hlast
  induction h with
  | done => cases hdot
  | @literal c s r ns _ _ h ih =>
    by_cases hr : r = []
    · rw [hr] at hdot
      rw [(h.of_nil hr).1]
      exact hdot
    · have hlast : r.getLast? = some '.' := by
        rwa [← singleton_append, getLast?_append_of_ne_nil _ hr] at hdot
      exact hcons (suffix_cons c s) (ih hlast)
  | @wildcard s r n ns _ hn h ih => exact hcons (suffix_cons _ s) (ih (hnumber h hn hdot))
  | @search c u s r n ns hclosed _ hn h ih =>
    exact hcons ((suffix_cons _ s).trans ((searchEnd hclosed).2.trans (suffix_cons _ u)))
      (ih (hnumber h hn hdot))

/-! ## The name -/

/-- The parts in front of the last one, each with its delimiter. -/
theorem intercalate_snoc (t : Str) :
    ['.'].intercalate (xs ++ [t]) = xs.flatMap (fun x => x ++ ['.']) ++ t := by
  induction xs with
  | nil => rw [nil_append, intercalate_singleton, flatMap_nil, nil_append]
  | cons x xs ih =>
    rw [cons_append, intercalate_cons_of_ne_nil (by simp), ih, flatMap_cons]
    simp only [append_assoc]

theorem dropDelimiter_append {l : Str} (hl : l ≠ []) (out : Str) :
    dropDelimiter (out ++ l) = out ++ dropDelimiter l := by
  rw [dropDelimiter, dropDelimiter, getLast?_append_of_ne_nil _ hl, dropLast_append_of_ne_nil hl]
  split
  · rfl
  · rfl

theorem leading_ne_dot (hdots : ¬['.', '.'] <:+: rest) : leading rest ≠ ['.'] := by
  unfold leading
  split
  · rename_i hhead
    cases rest with
    | nil => cases hhead
    | cons c rest =>
      obtain rfl := Option.some.inj hhead
      rintro (rfl : rest = ['.'])
      exact hdots infix_rfl
  · rename_i hhead
    rintro rfl
    exact hhead rfl

/-- The text in the buffer at the end of the path, as the parts with single dots. -/
theorem dropDelimiter_parts (hdots : ¬['.', '.'] <:+: rest) (altName : Str) (ns : List Str) :
    dropDelimiter (altName ++ ['.'] ++ ns.flatMap (fun n => n ++ ['.']) ++ leading rest) =
      ['.'].intercalate (nameParts altName ns rest) := by
  have hfront : altName ++ ['.'] ++ ns.flatMap (fun n => n ++ ['.']) =
      (altName :: ns).flatMap (fun n => n ++ ['.']) := by rw [flatMap_cons]
  rw [hfront, nameParts]
  by_cases hrest : leading rest = []
  · -- the last delimiter goes
    have htrim : trimmed rest = [] := by rw [trimmed, hrest]; rfl
    obtain ⟨xs, t, hxs⟩ : ∃ xs t, altName :: ns = xs ++ [t] :=
      ⟨_, _, (dropLast_append_getLast (cons_ne_nil altName ns)).symm⟩
    rw [hrest, if_pos htrim, append_nil, append_nil, hxs, intercalate_snoc,
      flatMap_append, flatMap_singleton, ← append_assoc, dropDelimiter_snoc]
  · have htrim : trimmed rest ≠ [] := by
      intro hnil
      rw [trimmed, dropDelimiter] at hnil
      split at hnil
      · rename_i hlast
        obtain ⟨x, hx⟩ : ∃ x, leading rest = [x] := by
          have hsplit := dropLast_append_getLast hrest
          rw [hnil] at hsplit
          exact ⟨_, hsplit.symm⟩
        rw [hx] at hlast
        obtain rfl : x = '.' := Option.some.inj hlast
        exact leading_ne_dot hdots hx
      · exact hrest hnil
    rw [if_neg htrim, ← cons_append, intercalate_snoc, dropDelimiter_append hrest, trimmed]

/-- The function along a reference and one of its paths: a buffer with three cells more than
the name has characters is never too small. -/
theorem reduceToAltName_spells {altName : Str} (h : Spells spec r ns) (hrest : Beyond spec rest)
    (hpath : r ++ rest ≠ []) (halt : altName ≠ []) :
    (reduceToAltName spec (r ++ rest) altName bufLen = some (.error .internalError) ∧
        bufLen ≤ (['.'].intercalate (nameParts altName ns rest)).length + 2) ∨
      reduceToAltName spec (r ++ rest) altName bufLen =
        some (.ok (['.'].intercalate (nameParts altName ns rest))) := by
  have hlong := dropDelimiter_length
    (altName ++ ['.'] ++ ns.flatMap (fun n => n ++ ['.']) ++ leading rest)
  rw [reduceToAltName, if_neg halt, ← dropDelimiter_parts hrest.dots]
  split
  · refine .inl ⟨rfl, ?_⟩
    simp only [length_append] at hlong
    omega
  · rename_i hlen
    rw [store_fits (by omega), Option.bind_some]
    have hroom : HasRoom bufLen (r ++ rest) (altName ++ ['.']) := by
      refine ⟨?_, fun hnil => absurd hnil hpath⟩
      rw [length_append, length_singleton]
      omega
    exact (reduceLoop_spells h hrest.begins hrest.dots hroom getLast?_concat).imp_left
      fun hfull => ⟨hfull.1, by omega⟩

example : reduceToAltName "Device.[A==1].Stuff.[B==2].Hello.".toList
    "Device.56.Stuff.72.Hello.Obj.3.Param".toList "alt".toList 256 =
      some (.ok "alt.56.72.Obj.3.Param".toList) := by decide

/-! ## Different names -/

theorem intercalate_cons_flatMap (x : Str) (xs : List Str) :
    ['.'].intercalate (x :: xs) = x ++ xs.flatMap ('.' :: ·) := by
  induction xs generalizing x with
  | nil => rw [intercalate_singleton, flatMap_nil, append_nil]
  | cons y xs ih =>
    rw [intercalate_cons_of_ne_nil (cons_ne_nil _ _), ih, flatMap_cons]
    simp only [cons_append, nil_append, append_assoc]

theorem isTail_flatMap : IsTail (xs.flatMap ('.' :: ·)) := by
  cases xs with
  | nil => exact .inl rfl
  | cons x xs => exact .inr ⟨_, rfl⟩

/-- As many numbers in front of what is left are read off a name. -/
theorem flatMap_dots_inj {xs xs' : List Str} (hlen : ns.length = ns'.length)
    (hns : ∀ n ∈ ns, '.' ∉ n) (hns' : ∀ n ∈ ns', '.' ∉ n)
    (h : (ns ++ xs).flatMap ('.' :: ·) = (ns' ++ xs').flatMap ('.' :: ·)) :
    ns = ns' ∧ xs.flatMap ('.' :: ·) = xs'.flatMap ('.' :: ·) := by
  induction ns generalizing ns' with
  | nil =>
    obtain rfl := List.length_eq_zero_iff.mp hlen.symm
    exact ⟨rfl, h⟩
  | cons n ns ih =>
    cases ns' with
    | nil => cases hlen
    | cons n' ns' =>
      rw [cons_append, cons_append, flatMap_cons, flatMap_cons] at h
      obtain rfl : n = n' := @name_eq _ _ [] _ _ (hns n mem_cons_self)
        (hns' n' mem_cons_self) (isTail_flatMap _) (isTail_flatMap _) h
      obtain ⟨rfl, hxs⟩ := ih (Nat.succ.inj hlen) (fun m hm => hns m (mem_cons_of_mem _ hm))
        (fun m hm => hns' m (mem_cons_of_mem _ hm)) (append_cancel_left h)
      exact ⟨rfl, hxs⟩

theorem part_inj {t' : Str} (h : (if t = [] then [] else [t]).flatMap ('.' :: ·) =
    (if t' = [] then [] else [t']).flatMap ('.' :: ·)) : t = t' := by
  by_cases ht : t = []
  · by_cases ht' : t' = []
    · exact ht.trans ht'.symm
    · rw [if_pos ht, if_neg ht', flatMap_singleton] at h
      cases h
  · by_cases ht' : t' = []
    · rw [if_neg ht, if_pos ht', flatMap_singleton] at h
      cases h
    · rw [if_neg ht, if_neg ht', flatMap_singleton, flatMap_singleton] at h
      exact tail_eq_of_cons_eq h

/-- A name tells the numbers and the part beyond the reference. -/
theorem nameParts_inj {rest' altName : Str}
    (h : Spells spec r ns) (h' : Spells spec r' ns')
    (hname : ['.'].intercalate (nameParts altName ns rest) =
      ['.'].intercalate (nameParts altName ns' rest')) : r = r' ∧ trimmed rest = trimmed rest' := by
  rw [nameParts, nameParts, intercalate_cons_flatMap, intercalate_cons_flatMap] at hname
  have hdots : ∀ {ns : List Str}, (∀ n ∈ ns, IsNumber n) → ∀ n ∈ ns, '.' ∉ n :=
    fun hns n hn hdot => ((hns n hn).plain '.' hdot).1 rfl
  obtain ⟨rfl, hrest⟩ := flatMap_dots_inj (h.length_eq h') (hdots h.numbers) (hdots h'.numbers)
    (append_cancel_left hname)
  exact ⟨h.unique h', part_inj hrest⟩

end AltNames
