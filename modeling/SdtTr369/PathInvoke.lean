import Mathlib.Data.List.MinMax
import Mathlib.Data.List.Nodup
import SdtTr369.JsonNames

/-!
# The handlers of paths on the Java side

`Tr369PathInvoke` looks a path up as it is, and then takes the first pattern, in the order of its
map, that occurs anywhere in the path. Several patterns that occur in one path may have different
handlers, and then the order decides.
-/

namespace PathInvoke

open JsonNames List

/-! ## Keyed entries -/

section Entries

variable {κ ν : Type} [DecidableEq κ]

/-- A map with the order in which its entries are visited. -/
structure ArrayMap (κ ν : Type) where
  entries : List (κ × ν)
  nodup : (entries.map Prod.fst).Nodup

namespace ArrayMap

def keySet (m : ArrayMap κ ν) : List κ := m.entries.map Prod.fst

def get (m : ArrayMap κ ν) (key : κ) : Option ν :=
  (m.entries.find? fun e => decide (e.1 = key)).map Prod.snd

/-- The entries in another order. -/
def Reordered (m m' : ArrayMap κ ν) : Prop := m.entries.Perm m'.entries

variable {m : ArrayMap κ ν} {key : κ}

theorem get_eq_some_iff {v : ν} : m.get key = some v ↔ (key, v) ∈ m.entries := by
  rw [get, Option.map_eq_some_iff]
  constructor
  · rintro ⟨⟨key', v'⟩, hfind, rfl⟩
    have hkey : key' = key := by simpa using find?_some hfind
    exact hkey ▸ mem_of_find?_eq_some hfind
  · intro hmem
    cases hfind : m.entries.find? fun e => decide (e.1 = key) with
    | none =>
      have hno := List.find?_eq_none.mp hfind _ hmem
      simp at hno
    | some e =>
      have hkey : e.1 = key := by simpa using find?_some hfind
      have heq : e = (key, v) :=
        inj_on_of_nodup_map m.nodup (mem_of_find?_eq_some hfind) hmem hkey
      exact ⟨e, rfl, by rw [heq]⟩

theorem mem_keySet : key ∈ m.keySet ↔ ∃ v, m.get key = some v := by
  rw [keySet, mem_map]
  constructor
  · rintro ⟨⟨key', v⟩, hmem, rfl⟩
    exact ⟨v, get_eq_some_iff.mpr hmem⟩
  · rintro ⟨v, hv⟩
    exact ⟨(key, v), get_eq_some_iff.mp hv, rfl⟩

theorem get_reordered {m' : ArrayMap κ ν} (h : m.Reordered m') (key : κ) :
    m.get key = m'.get key := by
  apply Option.ext
  intro v
  rw [get_eq_some_iff, get_eq_some_iff]
  exact h.mem_iff

omit [DecidableEq κ] in
theorem mem_keySet_reordered {m' : ArrayMap κ ν} (h : m.Reordered m') (key : κ) :
    key ∈ m.keySet ↔ key ∈ m'.keySet := (h.map Prod.fst).mem_iff

/-- Any entry can come first. -/
theorem exists_first (h : key ∈ m.keySet) : ∃ m', m.Reordered m' ∧ m'.keySet.head? = some key := by
  obtain ⟨v, hv⟩ := mem_keySet.mp h
  obtain ⟨front, back, hcut⟩ := append_of_mem (get_eq_some_iff.mp hv)
  have hperm : m.entries.Perm ((key, v) :: (front ++ back)) := by
    rw [hcut]
    exact perm_middle
  exact ⟨⟨_, (hperm.map Prod.fst).nodup_iff.mp m.nodup⟩, hperm, rfl⟩

end ArrayMap

end Entries

/-! ## The handlers -/

structure CallInfo (Method : Type) where
  mMethod : Method
  mWithParam : Bool
  deriving DecidableEq

variable {Method : Type}

/-- The entry that both `getString` and `setString` take. -/
def findInfo (map : ArrayMap Text (CallInfo Method)) (path : Text) : Option (CallInfo Method) :=
  match map.get path with
  | some info => some info
  | none => (map.keySet.find? fun key => decide (key <:+: path)).bind map.get

/-- The call of a handler for a value. An exception is no value. -/
def callGet (invoke : Method → List Text → Option (Option Text)) (path : Text)
    (info : CallInfo Method) : Option Text :=
  (invoke info.mMethod (if info.mWithParam then [path] else [])).getD none

def callSet (invoke : Method → List Text → Option Bool) (path value : Text)
    (info : CallInfo Method) : Option Bool := invoke info.mMethod [path, value]

/-- `getString` -/
def getString (invoke : Method → List Text → Option (Option Text))
    (mapRunGet : ArrayMap Text (CallInfo Method)) (path : Text) : Option Text :=
  if path = [] then none
  else
    match findInfo mapRunGet path with
    | none => none
    | some info => callGet invoke path info

/-- `setString` -/
def setString (invoke : Method → List Text → Option Bool)
    (mapRunSet : ArrayMap Text (CallInfo Method)) (path value : Text) : Bool :=
  if path = [] then false
  else
    match findInfo mapRunSet path with
    | none => false
    | some info => (callSet invoke path value info).getD false

/-! ## The most specific pattern -/

def dot : UInt16 := 46

/-- The path itself, or some of its first segments, with or without the dot behind them. -/
def IsLeading (pattern path : Text) : Prop :=
  pattern = path ∨ pattern ≠ [] ∧ ∃ rest, path = pattern ++ rest ∧
    (pattern.getLast? = some dot ∨ rest.head? = some dot)

/-- The longest of the patterns that lead. -/
def IsBest (map : ArrayMap Text (CallInfo Method)) (path pattern : Text) : Prop :=
  pattern ∈ map.keySet ∧ IsLeading pattern path ∧
    ∀ other ∈ map.keySet, IsLeading other path → other.length ≤ pattern.length

/-- The entry taken is that of the most specific pattern. -/
def Specific (map : ArrayMap Text (CallInfo Method)) (path : Text) : Prop :=
  (∀ pattern, IsBest map path pattern → findInfo map path = map.get pattern) ∧
    ((∀ pattern ∈ map.keySet, ¬ IsLeading pattern path) → findInfo map path = none)

/-- Every pattern that occurs in the path has the handler of the most specific one. -/
def Agreeing (map : ArrayMap Text (CallInfo Method)) (path : Text) : Prop :=
  ∀ key ∈ map.keySet, key <:+: path → ∃ pattern, IsBest map path pattern ∧
    map.get key = map.get pattern

section Dispatch

variable {map map' : ArrayMap Text (CallInfo Method)} {path pattern : Text}

theorem IsLeading.isPrefix (h : IsLeading pattern path) : pattern <+: path := by
  cases h with
  | inl heq => rw [heq]
  | inr h =>
    obtain ⟨_, rest, hrest, _⟩ := h
    exact ⟨rest, hrest.symm⟩

theorem isBest_unique {pattern' : Text} (h : IsBest map path pattern)
    (h' : IsBest map path pattern') : pattern = pattern' := by
  have hle := h.2.2 pattern' h'.1 h'.2.1
  have hge := h'.2.2 pattern h.1 h.2.1
  exact (prefix_of_prefix_length_le h.2.1.isPrefix h'.2.1.isPrefix hge).eq_of_length
    (Nat.le_antisymm hge hle)

/-- Where a pattern leads there is a longest one. -/
theorem exists_isBest (hmem : pattern ∈ map.keySet) (h : IsLeading pattern path) :
    ∃ best, IsBest map path best := by
  classical
  let leading := map.keySet.filter fun key => decide (IsLeading key path)
  have hleading : ∀ key, key ∈ leading ↔ key ∈ map.keySet ∧ IsLeading key path := fun key => by
    simp [leading]
  have hne : leading ≠ [] := ne_nil_of_mem ((hleading pattern).mpr ⟨hmem, h⟩)
  cases hmax : leading.argmax List.length with
  | none => exact (hne (List.argmax_eq_none.mp hmax)).elim
  | some best =>
    obtain ⟨hkey, hlead⟩ := (hleading best).mp (argmax_mem hmax)
    exact ⟨best, hkey, hlead, fun other hother hl =>
      le_of_mem_argmax ((hleading other).mpr ⟨hother, hl⟩) hmax⟩

theorem isBest_reordered (h : map.Reordered map') :
    IsBest map path pattern ↔ IsBest map' path pattern := by
  simp only [IsBest, ArrayMap.mem_keySet_reordered h]

/-- The path itself is looked up first. -/
theorem findInfo_exact (h : path ∈ map.keySet) : findInfo map path = map.get path := by
  obtain ⟨info, hinfo⟩ := ArrayMap.mem_keySet.mp h
  rw [findInfo, hinfo]

theorem get_of_not_mem {key : Text} (h : key ∉ map.keySet) : map.get key = none := by
  cases hget : map.get key with
  | none => rfl
  | some info => exact (h (ArrayMap.mem_keySet.mpr ⟨info, hget⟩)).elim

theorem findInfo_search (h : path ∉ map.keySet) :
    findInfo map path = (map.keySet.find? fun key => decide (key <:+: path)).bind map.get := by
  rw [findInfo, get_of_not_mem h]

/-- A path that is a pattern is itself the most specific one. -/
theorem isBest_self (h : path ∈ map.keySet) : IsBest map path path :=
  ⟨h, .inl rfl, fun _ _ hlead => hlead.isPrefix.length_le⟩

theorem specific_exact (h : path ∈ map.keySet) : Specific map path := by
  constructor
  · intro pattern hbest
    rw [findInfo_exact h, isBest_unique hbest (isBest_self h)]
  · intro hnone
    exact (hnone path h (.inl rfl)).elim

/-- The first occurring pattern of any order has the right handler. -/
theorem specific_of_agreeing (h : Agreeing map path) (hperm : map.Reordered map') :
    Specific map' path := by
  by_cases hexact : path ∈ map'.keySet
  · exact specific_exact hexact
  · rw [Specific, findInfo_search hexact]
    cases hfind : map'.keySet.find? fun key => decide (key <:+: path) with
    | none =>
      constructor
      · intro pattern hbest
        have hno := List.find?_eq_none.mp hfind pattern hbest.1
        rw [decide_eq_true_eq] at hno
        exact (hno hbest.2.1.isPrefix.isInfix).elim
      · exact fun _ => rfl
    | some key =>
      have hkey : key ∈ map.keySet :=
        (ArrayMap.mem_keySet_reordered hperm key).mpr (mem_of_find?_eq_some hfind)
      have hwithin : key <:+: path := by simpa using find?_some hfind
      obtain ⟨best, hbest, hsame⟩ := h key hkey hwithin
      have hbest' := (isBest_reordered hperm).mp hbest
      rw [Option.bind_some, ← ArrayMap.get_reordered hperm, hsame]
      constructor
      · intro pattern hpattern
        rw [isBest_unique hpattern hbest', ArrayMap.get_reordered hperm]
      · intro hnone
        exact (hnone best hbest'.1 hbest'.2.1).elim

/-- The order that visits a pattern first shows its handler. -/
theorem agreeing_of_specific (hexact : path ∉ map.keySet)
    (h : ∀ map', map.Reordered map' → Specific map' path) : Agreeing map path := by
  intro key hkey hwithin
  obtain ⟨map', hperm, hhead⟩ := ArrayMap.exists_first hkey
  have hfirst : findInfo map' path = map.get key := by
    rw [findInfo_search ((ArrayMap.mem_keySet_reordered hperm path).not.mp hexact)]
    cases hkeys : map'.keySet with
    | nil => rw [hkeys] at hhead; cases hhead
    | cons first keys =>
      rw [hkeys] at hhead
      cases hhead
      rw [find?_cons_of_pos (by simpa using hwithin), Option.bind_some,
        ArrayMap.get_reordered hperm]
  obtain ⟨info, hinfo⟩ := ArrayMap.mem_keySet.mp hkey
  obtain ⟨hbest, hnone⟩ := h map' hperm
  by_cases hlead : ∃ pattern ∈ map'.keySet, IsLeading pattern path
  · obtain ⟨pattern, hmem, hpattern⟩ := hlead
    obtain ⟨best, hb⟩ := exists_isBest hmem hpattern
    exact ⟨best, (isBest_reordered hperm).mpr hb, by
      rw [← hfirst, hbest best hb, ArrayMap.get_reordered hperm]⟩
  · have hnothing := hnone fun pattern hmem hpattern => hlead ⟨pattern, hmem, hpattern⟩
    rw [hfirst, hinfo] at hnothing
    cases hnothing

theorem findInfo_eq_none_iff :
    findInfo map path = none ↔ ∀ key ∈ map.keySet, ¬ key <:+: path := by
  by_cases hexact : path ∈ map.keySet
  · obtain ⟨info, hinfo⟩ := ArrayMap.mem_keySet.mp hexact
    rw [findInfo_exact hexact, hinfo]
    exact iff_of_false (Option.some_ne_none info) fun h => h path hexact infix_rfl
  · rw [findInfo_search hexact, Option.bind_eq_none_iff]
    constructor
    · intro h key hkey hwithin
      have hfound : (map.keySet.find? fun key => decide (key <:+: path)).isSome = true :=
        List.find?_isSome.mpr ⟨key, hkey, by simpa using hwithin⟩
      obtain ⟨first, hfirst⟩ := Option.isSome_iff_exists.mp hfound
      obtain ⟨info, hinfo⟩ := ArrayMap.mem_keySet.mp (mem_of_find?_eq_some hfirst)
      rw [h first hfirst] at hinfo
      cases hinfo
    · intro h key hfind
      have hwithin : key <:+: path := by simpa using find?_some hfind
      exact (h key (mem_of_find?_eq_some hfind) hwithin).elim

theorem specific_iff : (∀ map', map.Reordered map' → Specific map' path) ↔
    path ∈ map.keySet ∨ Agreeing map path := by
  constructor
  · intro h
    by_cases hexact : path ∈ map.keySet
    · exact .inl hexact
    · exact .inr (agreeing_of_specific hexact h)
  · intro h map' hperm
    cases h with
    | inl hexact => exact specific_exact ((ArrayMap.mem_keySet_reordered hperm path).mp hexact)
    | inr hagree => exact specific_of_agreeing hagree hperm

/-- How an entry is found: the path itself, or else the first pattern that occurs in it. This is
the most specific pattern in every order when the occurring patterns agree, and only then. -/
structure Dispatches (map : ArrayMap Text (CallInfo Method)) (path : Text) : Prop where
  exact : path ∈ map.keySet → findInfo map path = map.get path
  search : path ∉ map.keySet →
    findInfo map path = (map.keySet.find? fun key => decide (key <:+: path)).bind map.get
  nothing : findInfo map path = none ↔ ∀ key ∈ map.keySet, ¬ key <:+: path
  specific : (∀ map', map.Reordered map' → Specific map' path) ↔
    path ∈ map.keySet ∨ Agreeing map path

/-- Both maps are searched alike, and a path that is a pattern of both is the most specific
pattern in both. -/
theorem getString_setString_dispatch (getMethod : Method → List Text → Option (Option Text))
    (setMethod : Method → List Text → Option Bool)
    (mapGet mapSet : ArrayMap Text (CallInfo Method)) (path value : Text) :
    (Dispatches mapGet path ∧ Dispatches mapSet path) ∧
      (path ∈ mapGet.keySet → path ∈ mapSet.keySet →
        IsBest mapGet path path ∧ IsBest mapSet path path) ∧
      (path ≠ [] →
        getString getMethod mapGet path = (findInfo mapGet path).bind (callGet getMethod path) ∧
          setString setMethod mapSet path value =
            ((findInfo mapSet path).bind (callSet setMethod path value)).getD false) := by
  have hall : ∀ map : ArrayMap Text (CallInfo Method), Dispatches map path := fun map =>
    ⟨findInfo_exact, findInfo_search, findInfo_eq_none_iff, specific_iff⟩
  refine ⟨⟨hall mapGet, hall mapSet⟩, fun hget hset => ⟨isBest_self hget, isBest_self hset⟩, ?_⟩
  intro hpath
  rw [getString, setString, if_neg hpath, if_neg hpath]
  constructor
  · cases findInfo mapGet path <;> rfl
  · cases findInfo mapSet path <;> rfl

end Dispatch

/-- Two patterns, one of which begins with the other. -/
def soundMap : ArrayMap Text (CallInfo Nat) where
  entries := [(text "Device.X_Skyworth.Sound", ⟨0, false⟩),
    (text "Device.X_Skyworth.SoundSwitch", ⟨1, false⟩)]
  nodup := by decide

/-- The shorter pattern is no run of segments, and it is visited first. -/
theorem soundMap_not_specific :
    ¬ ∀ (map : ArrayMap Text (CallInfo Nat)) (path : Text), path ≠ [] → Specific map path := by
  intro h
  have hbest : IsBest soundMap (text "Device.X_Skyworth.SoundSwitch.Mode")
      (text "Device.X_Skyworth.SoundSwitch") := by
    have hlengths : ∀ other ∈ soundMap.keySet,
        other.length ≤ (text "Device.X_Skyworth.SoundSwitch").length := by decide
    exact ⟨by decide, .inr ⟨by decide, text ".Mode", by decide, .inr rfl⟩,
      fun other hother _ => hlengths other hother⟩
  have hspecific := h soundMap (text "Device.X_Skyworth.SoundSwitch.Mode") (by decide)
  have htaken : findInfo soundMap (text "Device.X_Skyworth.SoundSwitch.Mode") =
      some ⟨0, false⟩ := by decide +kernel
  have hright : soundMap.get (text "Device.X_Skyworth.SoundSwitch") = some ⟨1, false⟩ := by
    decide +kernel
  have hsame := hspecific.1 _ hbest
  rw [htaken, hright] at hsame
  cases hsame

end PathInvoke
