import Mathlib.Data.List.Basic
import Mathlib.Data.List.Infix

/-!
# JSON arrays of names

A text is a list of 16-bit units. The compact array of a list of names puts each name
between quotes, with a comma between two of them and no blank anywhere. Reading it back
is one pass over the units. A name that holds none of the separators occurs in the array
exactly when it occurs inside one of the names.
-/

namespace JsonNames

open List

abbrev Text := List UInt16

def text (s : String) : Text := s.toList.map fun c => UInt16.ofNat c.toNat

def quote : UInt16 := 34
def comma : UInt16 := 44
def opening : UInt16 := 91
def backslash : UInt16 := 92
def closing : UInt16 := 93

def escaped (c : UInt16) : Text := if c = quote ∨ c = backslash then [backslash, c] else [c]

def quoted (name : Text) : Text := quote :: (name.flatMap escaped ++ [quote])

/-- The compact array. -/
def array : List Text → Text
  | [] => [opening, closing]
  | name :: names =>
    opening :: (quoted name ++ names.flatMap (fun name => comma :: quoted name) ++ [closing])

/-- Where the reader of an array stands. -/
inductive Reader
  | start
  | first
  | inside (name : Text)
  | escape (name : Text)
  | after
  | next
  | done
  deriving DecidableEq

def read : Reader × List Text → UInt16 → Option (Reader × List Text)
  | (.start, l), c => if c = opening then some (.first, l) else none
  | (.first, l), c =>
    if c = quote then some (.inside [], l) else if c = closing then some (.done, l) else none
  | (.inside name, l), c =>
    if c = quote then some (.after, l ++ [name])
    else if c = backslash then some (.escape name, l)
    else some (.inside (name ++ [c]), l)
  | (.escape name, l), c =>
    if c = quote ∨ c = backslash then some (.inside (name ++ [c]), l) else none
  | (.after, l), c =>
    if c = comma then some (.next, l) else if c = closing then some (.done, l) else none
  | (.next, l), c => if c = quote then some (.inside [], l) else none
  | (.done, _), _ => none

def names (t : Text) : Option (List Text) :=
  match t.foldlM read (.start, []) with
  | some (.done, l) => some l
  | _ => none

section RoundTrip

variable (l : List Text) (name : Text) (c : UInt16)

@[simp] theorem read_start :
    read (.start, l) c = if c = opening then some (.first, l) else none := rfl

@[simp] theorem read_first :
    read (.first, l) c =
      if c = quote then some (.inside [], l) else if c = closing then some (.done, l) else none :=
  rfl

@[simp] theorem read_inside :
    read (.inside name, l) c =
      if c = quote then some (.after, l ++ [name])
      else if c = backslash then some (.escape name, l)
      else some (.inside (name ++ [c]), l) := rfl

@[simp] theorem read_escape :
    read (.escape name, l) c =
      if c = quote ∨ c = backslash then some (.inside (name ++ [c]), l) else none := rfl

@[simp] theorem read_after :
    read (.after, l) c =
      if c = comma then some (.next, l) else if c = closing then some (.done, l) else none := rfl

@[simp] theorem read_next :
    read (.next, l) c = if c = quote then some (.inside [], l) else none := rfl

theorem read_escaped :
    (escaped c).foldlM read (.inside name, l) = some (.inside (name ++ [c]), l) := by
  by_cases hc : c = quote ∨ c = backslash
  · have hq : backslash ≠ quote := by decide
    simp [escaped, hc, hq]
  · simp only [not_or] at hc
    simp [escaped, hc.1, hc.2]

theorem read_name (done : Text) (l : List Text) :
    (name.flatMap escaped).foldlM read (.inside done, l) = some (.inside (done ++ name), l) := by
  induction name generalizing done with
  | nil => simp
  | cons c name ih =>
    rw [flatMap_cons, foldlM_append, read_escaped, Option.bind_eq_bind, Option.bind_some,
      ih]
    simp

theorem read_quoted {r : Reader} (l : List Text) (hr : read (r, l) quote = some (.inside [], l)) :
    (quoted name).foldlM read (r, l) = some (.after, l ++ [name]) := by
  rw [quoted, foldlM_cons, hr, Option.bind_eq_bind, Option.bind_some, foldlM_append,
    read_name]
  simp

theorem read_rest (rest l : List Text) :
    (rest.flatMap fun name => comma :: quoted name).foldlM read (.after, l) =
      some (.after, l ++ rest) := by
  induction rest generalizing l with
  | nil => simp
  | cons name rest ih =>
    have hnext : read (.after, l) comma = some (.next, l) := by simp
    have hname : (quoted name).foldlM read (.next, l) = some (.after, l ++ [name]) :=
      read_quoted name l (by simp)
    rw [flatMap_cons, cons_append, foldlM_cons, hnext, Option.bind_eq_bind,
      Option.bind_some, foldlM_append, hname, Option.bind_eq_bind, Option.bind_some, ih]
    simp

/-- An array is read back as the names it was made from. -/
theorem names_array : names (array l) = some l := by
  cases l with
  | nil => decide
  | cons name rest =>
    have hopen : read (.start, []) opening = some (.first, []) := by simp
    have hname : (quoted name).foldlM read (.first, []) = some (.after, [name]) :=
      read_quoted name [] (by simp)
    have hclose : read (.after, [name] ++ rest) closing = some (.done, [name] ++ rest) := by
      have hc : closing ≠ comma := by decide
      simp [hc]
    have hread : (array (name :: rest)).foldlM read (.start, []) = some (.done, name :: rest) := by
      rw [array, foldlM_cons, hopen, Option.bind_eq_bind, Option.bind_some,
        foldlM_append, foldlM_append, hname, Option.bind_eq_bind, Option.bind_some,
        read_rest, Option.bind_some, foldlM_cons, hclose]
      simp
    rw [names, hread]

end RoundTrip

section Occurrence

variable {α : Type} {p a b : List α} {sep : α}

theorem prefix_cut (hsep : sep ∉ p) : p <+: a ++ sep :: b ↔ p <+: a := by
  induction a generalizing p with
  | nil =>
    cases p with
    | nil => simp
    | cons c p =>
      have hc : c ≠ sep := fun hc => hsep (by simp [hc])
      simp [cons_prefix_cons, hc]
  | cons x a ih =>
    cases p with
    | nil => simp
    | cons c p =>
      have hp : sep ∉ p := fun hp => hsep (mem_cons_of_mem c hp)
      rw [cons_append, cons_prefix_cons, cons_prefix_cons, ih hp]

/-- What does not hold the separator occurs on one side of it. -/
theorem infix_cut (hsep : sep ∉ p) : p <:+: a ++ sep :: b ↔ p <:+: a ∨ p <:+: b := by
  induction a with
  | nil =>
    rw [nil_append, infix_cons_iff, ← nil_append (sep :: b), prefix_cut hsep,
      prefix_nil, infix_nil]
  | cons x a ih =>
    rw [cons_append, infix_cons_iff, ← cons_append, prefix_cut hsep, ih,
      infix_cons_iff, or_assoc]

theorem infix_cut_first (hsep : sep ∉ p) (hp : p ≠ []) : p <:+: sep :: b ↔ p <:+: b := by
  have h := infix_cut (a := []) (b := b) hsep
  simpa [hp] using h

end Occurrence

section Plain

/-- A text without the units that delimit the names of an array. -/
def Plain (t : Text) : Prop :=
  ∀ c ∈ t, c ≠ quote ∧ c ≠ comma ∧ c ≠ opening ∧ c ≠ backslash ∧ c ≠ closing

variable {p name : Text}

theorem quoted_plain (h : Plain name) : quoted name = quote :: (name ++ [quote]) := by
  have hname : name.flatMap escaped = name := by
    induction name with
    | nil => rfl
    | cons c name ih =>
      have hc := h c mem_cons_self
      have hrest : Plain name := fun d hd => h d (mem_cons_of_mem c hd)
      rw [flatMap_cons, ih hrest]
      simp [escaped, hc.1, hc.2.2.2.1]
  rw [quoted, hname]

variable {rest : Text} {names : List Text}

theorem infix_quoted (hp : Plain p) (hne : p ≠ []) (hname : Plain name) :
    p <:+: quoted name ++ rest ↔ p <:+: name ∨ p <:+: rest := by
  have hq : quote ∉ p := fun h => (hp quote h).1 rfl
  rw [quoted_plain hname, cons_append, infix_cut_first hq hne, append_assoc,
    singleton_append, infix_cut hq]

theorem infix_rest (hp : Plain p) (hne : p ≠ []) (hnames : ∀ name ∈ names, Plain name) :
    p <:+: names.flatMap (fun name => comma :: quoted name) ++ rest ↔
      (∃ name ∈ names, p <:+: name) ∨ p <:+: rest := by
  have hc : comma ∉ p := fun h => (hp comma h).2.1 rfl
  induction names with
  | nil => simp
  | cons name names ih =>
    have hrest : ∀ m ∈ names, Plain m := fun m hm => hnames m (mem_cons_of_mem name hm)
    rw [flatMap_cons, cons_append, cons_append, infix_cut_first hc hne,
      append_assoc, infix_quoted hp hne (hnames name mem_cons_self),
      exists_mem_cons_iff, or_assoc]
    exact or_congr_right (ih hrest)

/-- A plain text occurs in an array exactly when it occurs inside one of its names. -/
theorem infix_array (hp : Plain p) (hne : p ≠ []) (hnames : ∀ name ∈ names, Plain name) :
    p <:+: array names ++ rest ↔ (∃ name ∈ names, p <:+: name) ∨ p <:+: rest := by
  have ho : opening ∉ p := fun h => (hp opening h).2.2.1 rfl
  have hc : closing ∉ p := fun h => (hp closing h).2.2.2.2 rfl
  cases names with
  | nil => simp [array, infix_cut_first ho hne, infix_cut_first hc hne]
  | cons name names =>
    have hrest : ∀ m ∈ names, Plain m := fun m hm => hnames m (mem_cons_of_mem name hm)
    rw [array, cons_append, infix_cut_first ho hne, append_assoc, append_assoc,
      infix_quoted hp hne (hnames name mem_cons_self), infix_rest hp hne hrest,
      singleton_append, infix_cut_first hc hne]
    simp [or_assoc]

/-- The same of several arrays one after the other. -/
theorem infix_arrays {parts : List (List Text)} (hp : Plain p) (hne : p ≠ [])
    (hparts : ∀ names ∈ parts, ∀ name ∈ names, Plain name) :
    p <:+: parts.flatMap array ↔ ∃ name ∈ parts.flatten, p <:+: name := by
  induction parts with
  | nil => simpa using hne
  | cons names parts ih =>
    have hrest := ih fun ms hms => hparts ms (mem_cons_of_mem names hms)
    rw [flatMap_cons, infix_array hp hne (hparts names mem_cons_self), hrest,
      flatten_cons]
    simp [or_and_right, exists_or]

end Plain

end JsonNames
