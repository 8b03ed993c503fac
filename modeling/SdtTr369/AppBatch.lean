import Mathlib.Logic.Function.Basic
import SdtTr369.JsonNames

/-!
# The application lists

The batch parameters hold three JSON lists of package names, each with a switch. Two
mechanisms enforce them: the system properties of the firewall, which an installation
asks, and the watcher service, which stops activities from starting. The setters read the
stored parameters back, and Gson turns a text into names and names into a text.
-/

namespace AppBatch

open JsonNames List

/-- The two conversions of Gson. A text that does not parse, and one that is `null`, give
no list, and an element may be `null`. -/
structure Gson where
  fromJson : Text → Option (List (Option Text))
  toJson : List Text → Text

/-- What is documented of the conversions: a list written is read back, and the empty text
is `null`. -/
structure Gson.Documented (g : Gson) : Prop where
  written : ∀ names : List Text, g.fromJson (g.toJson names) = some (names.map some)
  empty : g.fromJson [] = none

inductive Param
  | lockList
  | lockEnable
  | blackList
  | blackEnable
  | whiteList
  | whiteEnable
  deriving DecidableEq

/-- `TYPE_UNDEFINED`, `TYPE_WHITELIST` and `TYPE_BLACKLIST`. -/
inductive ListType
  | undefined
  | whitelist
  | blacklist
  deriving DecidableEq

/-- The running `ActivityStartWatcher`. -/
structure Watcher where
  lockType : ListType
  lockList : List Text
  deriving DecidableEq

/-- The stored parameters, the firewall's properties, the service and what was uninstalled. -/
structure State where
  db : Param → Text
  firewallType : ListType
  firewallNum : Nat
  firewallPart : Nat → Text
  watcher : Option Watcher
  uninstalled : List Text

/-- What one set is answered: whether its write to the database and that of the switch it
turns off succeed, whether the activity manager takes the controller, and the installed
packages, each with whether it is a system application. -/
structure Answers where
  stored : Bool
  storedOff : Bool
  controllerSet : Bool
  installed : List (Text × Bool)

def one : Text := text "1"
def zero : Text := text "0"

/-- `parsePkgNamesFromJson`. -/
def parsePkgNamesFromJson (g : Gson) (json : Text) : List Text :=
  match g.fromJson json with
  | none => []
  | some names => (names.filterMap id).filter fun name => name ≠ []

/-- `ArrayList.toString`. -/
def listToString (names : List Text) : Text :=
  text "[" ++ List.intercalate (text ", ") names ++ text "]"

/-- The longest value of a system property. -/
def maxPropLen : Nat := 91

namespace State

def setDBParam (stored : Bool) (path : Param) (value : Text) (s : State) : State :=
  if stored then { s with db := Function.update s.db path value } else s

/-- `clearAppFirewallList`. -/
def clearAppFirewallList (s : State) : State :=
  { s with
    firewallPart := fun i => if 1 ≤ i ∧ i ≤ s.firewallNum then [] else s.firewallPart i
    firewallNum := 0 }

/-- `setAppFirewallList`: a value too long for a property throws, after the number was set. -/
def setAppFirewallList (num : Nat) (data : Text) (s : State) : State × Option Unit :=
  let s := { s with firewallNum := num }
  if maxPropLen < data.length then (s, none)
  else ({ s with firewallPart := Function.update s.firewallPart num data }, some ())

/-- The loop of `parseAppFirewallList` over the names, with the parts stored so far and the
names of the next one. -/
def storeNames (g : Gson) : List Text → Nat → List Text → State → State × Option Unit
  | [], numPropPart, firewallList, s =>
    if firewallList = [] then (s, some ())
    else s.setAppFirewallList (numPropPart + 1) (g.toJson firewallList)
  | packageName :: names, numPropPart, firewallList, s =>
    if packageName = [] then storeNames g names numPropPart firewallList s
    else if 85 < packageName.length + (listToString firewallList).length then
      match s.setAppFirewallList (numPropPart + 1) (g.toJson firewallList) with
      | (s, none) => (s, none)
      | (s, some ()) => storeNames g names (numPropPart + 1) [packageName] s
    else storeNames g names numPropPart (firewallList ++ [packageName]) s

/-- `parseAppFirewallList`. No result means that it threw. -/
def parseAppFirewallList (g : Gson) (type : ListType) (list : Text) (s : State) :
    State × Option Bool :=
  let packageNames := parsePkgNamesFromJson g list
  if packageNames = [] then (s, some (type = .whitelist))
  else
    let stored :=
      if maxPropLen < list.length then storeNames g packageNames 0 [] s
      else s.setAppFirewallList 1 (g.toJson packageNames)
    (stored.1, stored.2.map fun _ => true)

/-- `getMergedLockList`. -/
def getMergedLockList (g : Gson) (s : State) : Text :=
  let black :=
    if s.db .blackEnable = one then parsePkgNamesFromJson g (s.db .blackList) else []
  let lock := if s.db .lockEnable = one then parsePkgNamesFromJson g (s.db .lockList) else []
  if black ++ lock ≠ [] then g.toJson (black ++ lock) else []

/-- `onStartCommand`: a type or a list it does not take, or a controller it cannot set, stops
the service. -/
def onStartCommand (g : Gson) (a : Answers) (lockType : ListType) (lockList : Text) (s : State) :
    State :=
  let names := parsePkgNamesFromJson g lockList
  if lockType = .undefined ∨ names = [] ∨ ¬ a.controllerSet then { s with watcher := none }
  else { s with watcher := some ⟨lockType, names⟩ }

def stopService (s : State) : State := { s with watcher := none }

/-- The enabling half of `setAppLockListStatus`. -/
def lockAppStart (g : Gson) (a : Answers) (s : State) : State :=
  let lockList := s.getMergedLockList g
  if lockList = [] then s else s.onStartCommand g a .blacklist lockList

/-- `setAppLockListStatus`. -/
def setAppLockListStatus (g : Gson) (a : Answers) (enable : Bool) (s : State) : State :=
  if enable then s.lockAppStart g a
  else
    let s := s.stopService
    if s.db .blackEnable = one then s.lockAppStart g a else s

/-- The second step of `setAppBlackListStatus`: what occurs in the text of the list goes,
system applications apart. -/
def uninstallListed (a : Answers) (blackList : Text) (s : State) : State :=
  { s with
    uninstalled := s.uninstalled ++
      ((a.installed.filter fun pkg => decide (pkg.1 <:+: blackList) && !pkg.2).map (·.1)) }

/-- `setAppBlackListStatus`. -/
def setAppBlackListStatus (g : Gson) (a : Answers) (enable : Bool) (s : State) :
    State × Option Bool :=
  if enable then
    let lockList := s.getMergedLockList g
    if lockList = [] then (s, some true)
    else
      let s := s.onStartCommand g a .blacklist lockList
      let blackList := s.db .blackList
      if blackList = [] then (s, some true)
      else
        let s := (s.uninstallListed a blackList).clearAppFirewallList
        match s.parseAppFirewallList g .blacklist blackList with
        | (s, none) => (s, none)
        | (s, some true) => ({ s with firewallType := .blacklist }, some true)
        | (s, some false) => ({ s with firewallType := .undefined }, some false)
  else
    let s := s.stopService
    let s :=
      if s.firewallType = .blacklist then
        ({ s with firewallType := .undefined } : State).clearAppFirewallList
      else s
    if s.db .lockEnable = one then (s.setAppLockListStatus g a true, some true)
    else (s, some true)

/-- `setAppWhiteListStatus`. -/
def setAppWhiteListStatus (g : Gson) (enable : Bool) (s : State) : State × Option Bool :=
  if enable then
    let whiteList := s.db .whiteList
    let s := s.clearAppFirewallList
    let parsed :=
      if whiteList = [] then (s, some true) else s.parseAppFirewallList g .whitelist whiteList
    match parsed with
    | (s, none) => (s, none)
    | (s, some true) => ({ s with firewallType := .whitelist }, some true)
    | (s, some false) => ({ s with firewallType := .undefined }, some false)
  else if s.firewallType = .whitelist then
    (({ s with firewallType := .undefined } : State).clearAppFirewallList, some true)
  else (s, some true)

/-- The call `SK_TR369_SetAppBatchParams` makes of itself to turn the white list off. -/
def turnWhiteListOff (g : Gson) (a : Answers) (s : State) : State :=
  ((s.setDBParam a.storedOff .whiteEnable zero).setAppWhiteListStatus g false).1

/-- The call `SK_TR369_SetAppBatchParams` makes of itself to turn the black list off. -/
def turnBlackListOff (g : Gson) (a : Answers) (s : State) : State :=
  ((s.setDBParam a.storedOff .blackEnable zero).setAppBlackListStatus g a false).1

/-- `SK_TR369_SetAppBatchParams`. No result means that it threw. -/
def setAppBatchParams (g : Gson) (a : Answers) (path : Param) (value : Text) (s : State) :
    State × Option Bool :=
  let s := s.setDBParam a.stored path value
  match path with
  | .lockEnable => (s.setAppLockListStatus g a (value = one), some true)
  | .blackEnable =>
    let enable : Bool := value = one
    let s := if enable ∧ s.db .whiteEnable = one then s.turnWhiteListOff g a else s
    s.setAppBlackListStatus g a enable
  | .whiteEnable =>
    let enable : Bool := value = one
    let s := if enable ∧ s.db .blackEnable = one then s.turnBlackListOff g a else s
    s.setAppWhiteListStatus g enable
  | .lockList | .blackList | .whiteList => (s, some true)

/-- The text `isPkgAllowedToInstall` puts together. -/
def packageList (s : State) : Text :=
  (List.range s.firewallNum).flatMap fun i => s.firewallPart (i + 1)

/-- `isPkgAllowedToInstall`. -/
def isPkgAllowedToInstall (packageName : Text) (s : State) : Bool :=
  if s.firewallNum = 0 then s.firewallType ≠ .whitelist
  else if s.firewallType = .whitelist ∧ ¬ packageName <:+: s.packageList then false
  else if s.firewallType = .blacklist ∧ packageName <:+: s.packageList then false
  else true

end State

section Names

variable {g : Gson} {names : List Text} {json : Text}

theorem ne_nil_of_mem_parsePkgNamesFromJson {name : Text}
    (h : name ∈ parsePkgNamesFromJson g json) : name ≠ [] := by
  unfold parsePkgNamesFromJson at h
  cases hjson : g.fromJson json with
  | none => simp [hjson] at h
  | some names =>
    simp only [hjson, mem_filter, decide_eq_true_eq] at h
    exact h.2

theorem parsePkgNamesFromJson_nil (hg : g.Documented) : parsePkgNamesFromJson g [] = [] := by
  simp [parsePkgNamesFromJson, hg.empty]

theorem parsePkgNamesFromJson_toJson (hg : g.Documented) (hnames : ∀ name ∈ names, name ≠ []) :
    parsePkgNamesFromJson g (g.toJson names) = names := by
  have hsome : (names.map some).filterMap id = names := by simp [filterMap_map]
  have hkept : (names.filter fun name => name ≠ []) = names :=
    List.filter_eq_self.mpr fun name hname => by simpa using hnames name hname
  simp only [parsePkgNamesFromJson, hg.written, hsome, hkept]

theorem toJson_ne_nil (hg : g.Documented) : g.toJson names ≠ [] := by
  intro h
  have hwritten := hg.written names
  rw [h, hg.empty] at hwritten
  cases hwritten

end Names

section Parts

/-- The parts into which the loop of `parseAppFirewallList` cuts the names. -/
def nameParts : List Text → List Text → List (List Text)
  | [], firewallList => if firewallList = [] then [] else [firewallList]
  | packageName :: names, firewallList =>
    if packageName = [] then nameParts names firewallList
    else if 85 < packageName.length + (listToString firewallList).length then
      firewallList :: nameParts names [packageName]
    else nameParts names (firewallList ++ [packageName])

/-- The parts in which the names of a list are stored. -/
def cut (list : Text) (names : List Text) : List (List Text) :=
  if names = [] then [] else if maxPropLen < list.length then nameParts names [] else [names]

/-- Every part is a value a system property takes. -/
def Fits (g : Gson) (list : Text) : Prop :=
  ∀ names ∈ cut list (parsePkgNamesFromJson g list), (g.toJson names).length ≤ maxPropLen

instance (g : Gson) (list : Text) : Decidable (Fits g list) :=
  inferInstanceAs (Decidable (∀ names ∈ cut _ _, _))

theorem nameParts_flatten {names : List Text} (hnames : ∀ name ∈ names, name ≠ []) :
    ∀ firewallList, (nameParts names firewallList).flatten = firewallList ++ names := by
  induction names with
  | nil =>
    intro firewallList
    by_cases h : firewallList = [] <;> simp [nameParts, h]
  | cons name names ih =>
    intro firewallList
    have hname : name ≠ [] := hnames name mem_cons_self
    have hrest := ih fun m hm => hnames m (mem_cons_of_mem name hm)
    rw [nameParts, if_neg hname]
    split
    · rw [flatten_cons, hrest, singleton_append]
    · rw [hrest, append_assoc, singleton_append]

theorem cut_flatten {list : Text} {names : List Text} (hnames : ∀ name ∈ names, name ≠ []) :
    (cut list names).flatten = names := by
  unfold cut
  split
  · simp [*]
  · split
    · rw [nameParts_flatten hnames, nil_append]
    · simp

end Parts

namespace State

/-- The texts of the parts an installation reads. -/
def partTexts (s : State) : List Text :=
  (List.range s.firewallNum).map fun i => s.firewallPart (i + 1)

theorem packageList_eq (s : State) : s.packageList = s.partTexts.flatten := by
  rw [packageList, partTexts, flatMap_def]

/-- From one state to another the texts were added behind the parts, and nothing else was
done. -/
structure Stored (texts : List Text) (s s' : State) : Prop where
  parts : s'.partTexts = s.partTexts ++ texts
  num : s'.firewallNum = s.firewallNum + texts.length
  db : s'.db = s.db
  firewallType : s'.firewallType = s.firewallType
  watcher : s'.watcher = s.watcher
  uninstalled : s'.uninstalled = s.uninstalled

variable {g : Gson} {s s' s'' : State}

theorem Stored.refl (s : State) : Stored [] s s := ⟨by simp, rfl, rfl, rfl, rfl, rfl⟩

theorem Stored.append {t t' : List Text} (h : Stored t s s') (h' : Stored t' s' s'') :
    Stored (t ++ t') s s'' where
  parts := by rw [h'.parts, h.parts, append_assoc]
  num := by rw [h'.num, h.num, length_append, Nat.add_assoc]
  db := h'.db.trans h.db
  firewallType := h'.firewallType.trans h.firewallType
  watcher := h'.watcher.trans h.watcher
  uninstalled := h'.uninstalled.trans h.uninstalled

@[simp] theorem clearAppFirewallList_num (s : State) : s.clearAppFirewallList.firewallNum = 0 := rfl

@[simp] theorem clearAppFirewallList_partTexts (s : State) :
    s.clearAppFirewallList.partTexts = [] := rfl

@[simp] theorem clearAppFirewallList_db (s : State) : s.clearAppFirewallList.db = s.db := rfl

@[simp] theorem clearAppFirewallList_firewallType (s : State) :
    s.clearAppFirewallList.firewallType = s.firewallType := rfl

@[simp] theorem clearAppFirewallList_watcher (s : State) :
    s.clearAppFirewallList.watcher = s.watcher := rfl

theorem setAppFirewallList_returns_iff (num : Nat) (data : Text) :
    (s.setAppFirewallList num data).2 = some () ↔ data.length ≤ maxPropLen := by
  by_cases h : maxPropLen < data.length <;> simp [setAppFirewallList, h] <;> omega

theorem setAppFirewallList_stored (data : Text) {num : Nat} (hnum : num = s.firewallNum + 1)
    (h : (s.setAppFirewallList num data).2 = some ()) :
    Stored [data] s (s.setAppFirewallList num data).1 := by
  rw [setAppFirewallList_returns_iff] at h
  have hfits : ¬ maxPropLen < data.length := by omega
  have hold : (List.range s.firewallNum).map
        (fun i => Function.update s.firewallPart num data (i + 1)) =
      s.partTexts := by
    apply map_congr_left
    intro i hi
    have hlt := List.mem_range.mp hi
    exact Function.update_of_ne (by omega) _ _
  subst hnum
  constructor <;> simp only [setAppFirewallList, if_neg hfits, length_singleton]
  rw [partTexts, range_succ, map_append, hold]
  simp

/-- The loop comes to its end exactly when every part fits, and has then stored them. -/
theorem storeNames_spec (names : List Text) : ∀ {k : Nat} {firewallList : List Text} {s : State},
    k = s.firewallNum →
      ((s.storeNames g names k firewallList).2 = some () ↔
        ∀ part ∈ nameParts names firewallList, (g.toJson part).length ≤ maxPropLen) ∧
      ((s.storeNames g names k firewallList).2 = some () →
        Stored ((nameParts names firewallList).map g.toJson) s
          (s.storeNames g names k firewallList).1) := by
  induction names with
  | nil =>
    intro k firewallList s hk
    by_cases hnil : firewallList = []
    · simp [storeNames, nameParts, hnil, Stored.refl]
    · simp only [storeNames, nameParts, if_neg hnil, forall_mem_singleton, map_singleton]
      exact ⟨setAppFirewallList_returns_iff _ _, setAppFirewallList_stored _ (by omega)⟩
  | cons name names ih =>
    intro k firewallList s hk
    simp only [storeNames, nameParts]
    by_cases hnil : name = []
    · rw [if_pos hnil, if_pos hnil]
      exact ih hk
    rw [if_neg hnil, if_neg hnil]
    by_cases hlong : 85 < name.length + (listToString firewallList).length
    · rw [if_pos hlong, if_pos hlong]
      have hfits := setAppFirewallList_returns_iff (s := s) (k + 1) (g.toJson firewallList)
      have hstored := setAppFirewallList_stored (s := s) (g.toJson firewallList)
        (show k + 1 = s.firewallNum + 1 by omega)
      generalize s.setAppFirewallList (k + 1) (g.toJson firewallList) = stored at hfits hstored ⊢
      obtain ⟨s', r⟩ := stored
      cases r with
      | none =>
        have hlate : ¬ (g.toJson firewallList).length ≤ maxPropLen := by simpa using hfits
        simp [hlate]
      | some u =>
        have hpart := hstored rfl
        have hnum : k + 1 = s'.firewallNum := by
          rw [hpart.num, hk, length_singleton]
        obtain ⟨hrest, hrun⟩ := @ih (k + 1) [name] s' hnum
        constructor
        · rw [forall_mem_cons, ← hfits, hrest]
          simp
        · intro h
          rw [map_cons]
          exact hpart.append (hrun h)
    · rw [if_neg hlong, if_neg hlong]
      exact ih hk

theorem parseAppFirewallList_of_nil {type : ListType} {list : Text}
    (h : parsePkgNamesFromJson g list = []) :
    s.parseAppFirewallList g type list = (s, some (decide (type = .whitelist))) := by
  simp [parseAppFirewallList, h]

/-- A list with names is stored exactly when every part of it fits; else the call throws. -/
theorem parseAppFirewallList_spec (type : ListType) (list : Text) (hnum : s.firewallNum = 0)
    (h : parsePkgNamesFromJson g list ≠ []) :
    ((s.parseAppFirewallList g type list).2 = none ↔ ¬ Fits g list) ∧
      ((s.parseAppFirewallList g type list).2 ≠ none →
        (s.parseAppFirewallList g type list).2 = some true ∧
        Stored ((cut list (parsePkgNamesFromJson g list)).map g.toJson) s
          (s.parseAppFirewallList g type list).1) := by
  have hstore : ∀ stored : State × Option Unit, stored =
      (if maxPropLen < list.length then
        s.storeNames g (parsePkgNamesFromJson g list) 0 []
      else s.setAppFirewallList 1 (g.toJson (parsePkgNamesFromJson g list))) →
      (stored.2 = some () ↔ Fits g list) ∧
      (stored.2 = some () →
        Stored ((cut list (parsePkgNamesFromJson g list)).map g.toJson) s stored.1) := by
    rintro stored rfl
    simp only [Fits, cut, if_neg h]
    split
    · exact storeNames_spec _ hnum.symm
    · rw [forall_mem_singleton, map_singleton]
      exact ⟨setAppFirewallList_returns_iff _ _, setAppFirewallList_stored _ (by omega)⟩
  simp only [parseAppFirewallList, if_neg h]
  obtain ⟨hfits, hstored⟩ := hstore _ rfl
  generalize (if maxPropLen < list.length then s.storeNames g (parsePkgNamesFromJson g list) 0 []
    else s.setAppFirewallList 1 (g.toJson (parsePkgNamesFromJson g list))) = stored at *
  obtain ⟨s', r⟩ := stored
  cases r with
  | none => simpa using hfits
  | some u => simpa using ⟨hfits.mp rfl, hstored rfl⟩

end State

end AppBatch
