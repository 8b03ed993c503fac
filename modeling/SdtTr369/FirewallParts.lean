import SdtTr369.AppFirewall
import Mathlib.Algebra.Ring.Nat

/-!
# The parts of the firewall's list

`parseAppFirewallList` measures the list printed with a comma and a blank between two names,
and stores it as JSON, where each name has two quotes besides. A part of many short names is
therefore longer than it was measured.
-/

namespace AppBatch

open JsonNames List

/-- The parts are stored, none too long and none empty, and give back the names in order. -/
structure Parted (g : Gson) (names : List Text) (stored : State × Option Bool) : Prop where
  returned : stored.2 ≠ none
  short : ∀ t ∈ stored.1.partTexts, t.length ≤ maxPropLen
  nonempty : ∀ t ∈ stored.1.partTexts, parsePkgNamesFromJson g t ≠ []
  decoded : stored.1.partTexts.flatMap (parsePkgNamesFromJson g) = names

/-- The JSON of the names of one part, by their number and the sum of their lengths. -/
def PartFits (number total : Nat) : Prop := total + 3 * number + 1 ≤ maxPropLen

/-- Names of these lengths are added to a part as long as the length of the next name, the
lengths of the others and two characters for each of them are at most 85 together. Each part
fits in a property. -/
def RunsFit : List Nat → Nat → Nat → Prop
  | [], number, total => PartFits number total
  | length :: lengths, number, total =>
    if 85 < length + (total + 2 * number) then PartFits number total ∧ RunsFit lengths 1 length
    else RunsFit lengths (number + 1) (total + length)

/-- The lengths of the names of a list with `listLength` characters allow it to be stored: the
first name has at most 83 characters and each part fits, or all names fit in one property. -/
def Splits (listLength : Nat) : List Nat → Prop
  | [] => True
  | first :: rest =>
    if maxPropLen < listLength then first ≤ 83 ∧ RunsFit rest 1 first
    else PartFits (first :: rest).length (first :: rest).sum

section Lengths

variable {g : Gson} {name : Text} {names part : List Text}

theorem quoted_length (h : Plain name) : (quoted name).length = name.length + 2 := by
  rw [quoted_plain h, length_cons, length_append, length_singleton]

theorem rest_length (h : ∀ name ∈ names, Plain name) :
    (names.flatMap fun name => comma :: quoted name).length =
      (names.map List.length).sum + 3 * names.length := by
  induction names with
  | nil => rfl
  | cons name names ih =>
    have hname := quoted_length (h name mem_cons_self)
    have hrest := ih fun m hm => h m (mem_cons_of_mem name hm)
    simp only [flatMap_cons, length_append, length_cons, map_cons,
      sum_cons, hname, hrest]
    omega

theorem array_length (h : ∀ name ∈ names, Plain name) (hne : names ≠ []) :
    (array names).length = (names.map List.length).sum + 3 * names.length + 1 := by
  cases names with
  | nil => exact absurd rfl hne
  | cons name names =>
    have hname := quoted_length (h name mem_cons_self)
    have hrest := rest_length fun m hm => h m (mem_cons_of_mem name hm)
    simp only [array, length_append, length_cons, length_nil, map_cons,
      sum_cons, hname, hrest]
    omega

theorem intercalate_length (name : Text) (names : List Text) :
    (List.intercalate (text ", ") (name :: names)).length =
      ((name :: names).map List.length).sum + 2 * names.length := by
  have hsep : (text ", ").length = 2 := by decide
  induction names generalizing name with
  | nil => simp [List.intercalate]
  | cons next names ih =>
    rw [intercalate_cons_cons, length_append, length_append, ih, hsep]
    simp only [map_cons, sum_cons, length_cons]
    omega

theorem listToString_length (hne : part ≠ []) :
    (listToString part).length = (part.map List.length).sum + 2 * part.length := by
  have hopen : (text "[").length = 1 := by decide
  have hclose : (text "]").length = 1 := by decide
  cases part with
  | nil => exact absurd rfl hne
  | cons name part =>
    rw [listToString, length_append, length_append, intercalate_length, hopen, hclose,
      length_cons]
    omega

theorem toJson_fits (hcompact : g.Compact) (h : ∀ name ∈ part, PackageName name)
    (hne : part ≠ []) :
    (g.toJson part).length ≤ maxPropLen ↔ PartFits part.length (part.map List.length).sum := by
  rw [hcompact part h, array_length (fun m hm => plain_of_packageChar (h m hm).chars) hne, PartFits]

end Lengths

section Parts

variable {g : Gson} {names part : List Text} {list : Text} {s : State} {type : ListType}

/-- The loop makes parts that all fit exactly when the lengths of the names do. -/
theorem nameParts_fit_iff (hcompact : g.Compact) (hnames : ∀ name ∈ names, PackageName name) :
    ∀ firewallList, firewallList ≠ [] → (∀ name ∈ firewallList, PackageName name) →
      ((∀ part ∈ nameParts names firewallList, (g.toJson part).length ≤ maxPropLen ∧ part ≠ []) ↔
        RunsFit (names.map List.length) firewallList.length (firewallList.map List.length).sum) := by
  induction names with
  | nil =>
    intro firewallList hne hlist
    rw [nameParts, if_neg hne, forall_mem_singleton, toJson_fits hcompact hlist hne]
    exact ⟨fun h => h.1, fun h => ⟨h, hne⟩⟩
  | cons name names ih =>
    intro firewallList hne hlist
    have hname := hnames name mem_cons_self
    have hrest := ih fun m hm => hnames m (mem_cons_of_mem name hm)
    rw [nameParts, if_neg hname.nonempty, map_cons, RunsFit, listToString_length hne]
    split
    · have hsingle : ∀ m ∈ [name], PackageName m := by
        intro m hm
        rw [List.mem_singleton.mp hm]
        exact hname
      rw [forall_mem_cons, toJson_fits hcompact hlist hne,
        hrest [name] (cons_ne_nil _ _) hsingle]
      simp only [length_singleton, map_cons, map_nil, sum_singleton]
      exact ⟨fun h => ⟨h.1.1, h.2⟩, fun h => ⟨⟨h.1, hne⟩, h.2⟩⟩
    · have hmore : ∀ m ∈ firewallList ++ [name], PackageName m := by
        intro m hm
        cases List.mem_append.mp hm with
        | inl hold => exact hlist m hold
        | inr hnew =>
          rw [List.mem_singleton.mp hnew]
          exact hname
      rw [hrest _ (append_ne_nil_of_right_ne_nil _ (cons_ne_nil _ _)) hmore]
      simp only [length_append, length_singleton, map_append, map_cons,
        map_nil, sum_append, sum_singleton]

theorem cut_fit_iff (hcompact : g.Compact) (hnames : ∀ name ∈ names, PackageName name) :
    (∀ part ∈ cut list names, (g.toJson part).length ≤ maxPropLen ∧ part ≠ []) ↔
      Splits list.length (names.map List.length) := by
  cases names with
  | nil => simp [cut, Splits]
  | cons first rest =>
    have hfirst := hnames first mem_cons_self
    have hrest : ∀ name ∈ rest, PackageName name :=
      fun m hm => hnames m (mem_cons_of_mem first hm)
    have hsingle : ∀ m ∈ [first], PackageName m := by
      intro m hm
      rw [List.mem_singleton.mp hm]
      exact hfirst
    have hempty : (listToString []).length = 2 := by decide
    rw [cut, if_neg (cons_ne_nil _ _), map_cons, Splits]
    split
    · rw [nameParts, if_neg hfirst.nonempty, hempty]
      split
      · next hlong =>
        constructor
        · intro h
          exact absurd rfl (h [] mem_cons_self).2
        · intro h
          omega
      · next hshort =>
        have hfit := nameParts_fit_iff hcompact hrest [first] (cons_ne_nil _ _) hsingle
        simp only [length_singleton, map_cons, map_nil, sum_singleton] at hfit
        rw [nil_append, hfit]
        exact ⟨fun h => ⟨by omega, h⟩, fun h => h.2⟩
    · have hfit := toJson_fits hcompact hnames (cons_ne_nil first rest)
      rw [forall_mem_singleton, hfit, map_cons, length_cons, length_cons,
        length_map]
      exact ⟨fun h => h.1, fun h => ⟨h, cons_ne_nil _ _⟩⟩

theorem mem_of_mem_cut (hnames : ∀ name ∈ names, name ≠ []) (hpart : part ∈ cut list names)
    {name : Text} (h : name ∈ part) : name ∈ names := by
  have hflatten : (cut list names).flatten = names := cut_flatten hnames
  rw [← hflatten]
  exact List.mem_flatten.mpr ⟨part, hpart, h⟩

/-- What the parts give back. -/
theorem decoded_parts (hg : g.Documented) (hnames : ∀ name ∈ names, name ≠ []) :
    ((cut list names).map g.toJson).flatMap (parsePkgNamesFromJson g) = names := by
  have hread : (cut list names).flatMap (fun part => parsePkgNamesFromJson g (g.toJson part)) =
      (cut list names).flatMap id := by
    apply flatMap_congr
    intro part hpart
    exact parsePkgNamesFromJson_toJson hg fun m hm => hnames m (mem_of_mem_cut hnames hpart hm)
  rw [flatMap_map, hread, flatMap_id, cut_flatten hnames]

end Parts

section Lists

/-- Names of at least 20 characters come to at most three in a part. -/
theorem runsFit_of_long {lengths : List Nat} (h : ∀ l ∈ lengths, 20 ≤ l ∧ l ≤ 83) :
    ∀ number total, 20 * number ≤ total → number = 1 ∧ total ≤ 83 ∨ total + 2 * number ≤ 87 →
      RunsFit lengths number total := by
  have hfits : ∀ number total, 20 * number ≤ total →
      number = 1 ∧ total ≤ 83 ∨ total + 2 * number ≤ 87 → PartFits number total := by
    intro number total hlow hhigh
    simp only [PartFits, maxPropLen]
    omega
  induction lengths with
  | nil => exact hfits
  | cons l lengths ih =>
    intro number total hlow hhigh
    have hl := h l mem_cons_self
    have hrest := ih fun m hm => h m (mem_cons_of_mem l hm)
    rw [RunsFit]
    split
    · exact ⟨hfits number total hlow hhigh, hrest 1 l (by omega) (by omega)⟩
    · exact hrest (number + 1) (total + l) (by omega) (by omega)

/-- Names of 20 to 83 characters can always be split. -/
theorem splits_of_long {listLength : Nat} {lengths : List Nat}
    (h : ∀ l ∈ lengths, 20 ≤ l ∧ l ≤ 83) (hlist : maxPropLen < listLength) :
    Splits listLength lengths := by
  cases lengths with
  | nil => trivial
  | cons first rest =>
    have hfirst := h first mem_cons_self
    rw [Splits, if_pos hlist]
    refine ⟨hfirst.2, ?_⟩
    apply runsFit_of_long fun m hm => h m (mem_cons_of_mem first hm)
    · omega
    · omega

variable {g : Gson} {list : Text} {s : State} {type : ListType}

/-- The names of a list are stored in parts that give them back exactly when their lengths
allow it. -/
theorem parted_iff (hg : g.Documented) (hcompact : g.Compact) (hnum : s.firewallNum = 0)
    (hnames : ∀ name ∈ parsePkgNamesFromJson g list, PackageName name) :
    Parted g (parsePkgNamesFromJson g list) (s.parseAppFirewallList g type list) ↔
      Splits list.length ((parsePkgNamesFromJson g list).map List.length) := by
  have hnone : s.partTexts = [] := by
    rw [State.partTexts, hnum]
    rfl
  by_cases hempty : parsePkgNamesFromJson g list = []
  · rw [State.parseAppFirewallList_of_nil hempty, hempty]
    constructor
    · intro _
      trivial
    · intro _
      constructor
      · exact Option.some_ne_none _
      · rw [hnone]
        exact forall_mem_nil _
      · rw [hnone]
        exact forall_mem_nil _
      · rw [hnone]
        rfl
  · obtain ⟨hthrows, hstored⟩ := State.parseAppFirewallList_spec type list hnum hempty
    rw [← cut_fit_iff hcompact hnames]
    constructor
    · intro h part hpart
      have hfits : Fits g list := Classical.byContradiction fun hnot => h.returned (hthrows.mpr hnot)
      refine ⟨hfits part hpart, ?_⟩
      intro hnil
      have htexts := (hstored h.returned).2.parts
      rw [hnone, nil_append] at htexts
      apply h.nonempty (g.toJson part)
      · rw [htexts]
        exact mem_map_of_mem hpart
      · rw [hnil]
        exact parsePkgNamesFromJson_toJson hg (forall_mem_nil _)
    · intro h
      have hreturned : (s.parseAppFirewallList g type list).2 ≠ none := by
        intro hthrew
        exact hthrows.mp hthrew fun part hpart => (h part hpart).1
      have htexts := (hstored hreturned).2.parts
      rw [hnone, nil_append] at htexts
      constructor
      · exact hreturned
      · rw [htexts]
        intro t ht
        obtain ⟨part, hpart, rfl⟩ := List.mem_map.mp ht
        exact (h part hpart).1
      · rw [htexts]
        intro t ht
        obtain ⟨part, hpart, rfl⟩ := List.mem_map.mp ht
        rw [parsePkgNamesFromJson_toJson hg
          fun m hm => (hnames m (mem_of_mem_cut (fun n hn => (hnames n hn).nonempty) hpart hm)).nonempty]
        exact (h part hpart).2
      · rw [htexts]
        exact decoded_parts hg fun n hn => (hnames n hn).nonempty

def launcher : Text := text "com.skyworth.launcher"
def settings : Text := text "com.skyworth.settings"
def mediacenter : Text := text "com.skyworth.mediacenter"
def upgrade : Text := text "com.skyworth.upgrade"

def fourNames : List Text := [launcher, settings, mediacenter, upgrade]

/-- Four names in two parts. -/
theorem parted_iff_four :
    Parted compactGson fourNames
      (noLists.parseAppFirewallList compactGson .blacklist (array fourNames)) := by
  have hnonempty : ∀ name ∈ fourNames, name ≠ [] := by decide
  have hparse : parsePkgNamesFromJson compactGson (array fourNames) = fourNames :=
    parsePkgNamesFromJson_toJson compactGson_documented hnonempty
  have hnames : ∀ name ∈ parsePkgNamesFromJson compactGson (array fourNames), PackageName name := by
    rw [hparse]
    decide
  have hsplits : Splits (array fourNames).length
      ((parsePkgNamesFromJson compactGson (array fourNames)).map List.length) := by
    rw [hparse]
    exact splits_of_long (by decide) (by decide)
  have hparted : Parted compactGson (parsePkgNamesFromJson compactGson (array fourNames))
      (noLists.parseAppFirewallList compactGson .blacklist (array fourNames)) :=
    (parted_iff compactGson_documented compactGson_compact rfl hnames).mpr hsplits
  rw [hparse] at hparted
  exact hparted

/-- Eight names of ten characters. -/
def shops : List Text :=
  ["com.shop.a", "com.shop.b", "com.shop.c", "com.shop.d", "com.shop.e", "com.shop.f",
    "com.shop.g", "com.shop.h"].map text

/-- Each fits alone; a part of seven has 92 characters, and setting the property throws. -/
theorem seven_in_a_part :
    (∀ name ∈ shops, (compactGson.toJson [name]).length ≤ maxPropLen) ∧
      ¬ Parted compactGson shops
        (noLists.parseAppFirewallList compactGson .blacklist (array shops)) := by
  have hthrows : (noLists.parseAppFirewallList compactGson .blacklist (array shops)).2 = none := by
    decide
  exact ⟨by decide, fun h => h.returned hthrows⟩

end Lists

end AppBatch
