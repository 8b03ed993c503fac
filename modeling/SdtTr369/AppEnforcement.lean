import SdtTr369.AppBatch
import SdtTr369.RunHistory

/-!
# What the application lists enforce

The stored parameters denote an enforcement: the names of the black list while it is on,
else those of the white list while that is on, and for the watcher the names of the black
and of the lock list that are on. A black list without names counts as off. Each setter
is compared with what the parameters then denote, and a run of sets keeps the two equal
when no list is changed under its switch and every part fits a property.
-/

namespace AppBatch

open JsonNames RunHistory

namespace State

/-- The names of a list while its switch is on. -/
def listed (g : Gson) (list enable : Param) (s : State) : List Text :=
  if s.db enable = one then parsePkgNamesFromJson g (s.db list) else []

def blackNames (g : Gson) (s : State) : List Text := s.listed g .blackList .blackEnable

/-- What the watcher is to stop: the names of the black list and those of the lock list. -/
def lockUnion (g : Gson) (s : State) : List Text :=
  s.blackNames g ++ s.listed g .lockList .lockEnable

def denotedFirewall (g : Gson) (s : State) : ListType × List Text :=
  if s.blackNames g ≠ [] then (.blacklist, s.blackNames g)
  else if s.db .whiteEnable = one then (.whitelist, s.listed g .whiteList .whiteEnable)
  else (.undefined, [])

def denotedWatcher (g : Gson) (s : State) : Option Watcher :=
  if s.lockUnion g = [] then none else some ⟨.blacklist, s.lockUnion g⟩

/-- The names in the parts an installation reads. -/
def firewallNames (g : Gson) (s : State) : List Text :=
  s.partTexts.flatMap (parsePkgNamesFromJson g)

/-- What is enforced is what the stored parameters denote. -/
structure Denotes (g : Gson) (s : State) : Prop where
  oneList : ¬ (s.db .blackEnable = one ∧ s.db .whiteEnable = one)
  firewall : (s.firewallType, s.firewallNames g) = s.denotedFirewall g
  watcher : s.watcher = s.denotedWatcher g

end State

section Watch

variable {g : Gson} {a : Answers} {s : State}

theorem mem_lockUnion_ne_nil {name : Text} (h : name ∈ s.lockUnion g) : name ≠ [] := by
  have hlisted : ∀ list enable, name ∈ s.listed g list enable → name ≠ [] := by
    intro list enable h
    unfold State.listed at h
    split at h
    · exact ne_nil_of_mem_parsePkgNamesFromJson h
    · cases h
  rcases List.mem_append.mp h with h | h
  · exact hlisted _ _ h
  · exact hlisted _ _ h

theorem getMergedLockList_eq (g : Gson) (s : State) :
    s.getMergedLockList g = if s.lockUnion g = [] then [] else g.toJson (s.lockUnion g) := by
  change (if s.lockUnion g ≠ [] then g.toJson (s.lockUnion g) else []) = _
  by_cases h : s.lockUnion g = [] <;> simp [h]

theorem getMergedLockList_eq_nil (hg : g.Documented) :
    s.getMergedLockList g = [] ↔ s.lockUnion g = [] := by
  rw [getMergedLockList_eq]
  by_cases h : s.lockUnion g = []
  · simp [h]
  · simp [h, toJson_ne_nil hg]

section

variable (hg : g.Documented) (ha : a.controllerSet)
include hg ha

/-- The service started with the merged list watches for exactly these names. -/
theorem onStartCommand_merged (h : s.lockUnion g ≠ []) :
    s.onStartCommand g a .blacklist (s.getMergedLockList g) =
      { s with watcher := s.denotedWatcher g } := by
  have hread : parsePkgNamesFromJson g (s.getMergedLockList g) = s.lockUnion g := by
    rw [getMergedLockList_eq, if_neg h]
    exact parsePkgNamesFromJson_toJson hg fun name => mem_lockUnion_ne_nil
  simp [State.onStartCommand, State.denotedWatcher, hread, h, ha]

theorem lockAppStart_eq :
    s.lockAppStart g a =
      { s with watcher := if s.lockUnion g = [] then s.watcher else s.denotedWatcher g } := by
  by_cases h : s.lockUnion g = []
  · simp [State.lockAppStart, getMergedLockList_eq_nil hg, h]
  · simp [State.lockAppStart, getMergedLockList_eq_nil hg, h, onStartCommand_merged hg ha h]

/-- Started after a stop, the watcher is the denoted one. -/
theorem lockAppStart_stopped (h : s.watcher = none) :
    s.lockAppStart g a = { s with watcher := s.denotedWatcher g } := by
  rw [lockAppStart_eq hg ha]
  by_cases hnil : s.lockUnion g = []
  · simp [State.denotedWatcher, hnil, h]
  · simp [hnil]

/-- With the lock list off, turning it off leaves the watcher of the black list. -/
theorem setAppLockListStatus_off (hoff : s.db .lockEnable ≠ one) :
    s.setAppLockListStatus g a false = { s with watcher := s.denotedWatcher g } := by
  simp only [State.setAppLockListStatus, Bool.false_eq_true, if_false]
  by_cases hblack : s.stopService.db .blackEnable = one
  · rw [if_pos hblack]
    exact lockAppStart_stopped hg ha rfl
  · have hblack' : s.db .blackEnable ≠ one := hblack
    rw [if_neg hblack]
    simp [State.stopService, State.denotedWatcher, State.lockUnion, State.blackNames,
      State.listed, hblack', hoff]

end

end Watch

section BlackList

variable {g : Gson} {a : Answers} {s : State}

/-- Off, the black list leaves the watcher of the lock list and no firewall of its own. -/
theorem setAppBlackListStatus_off (hg : g.Documented) (ha : a.controllerSet) :
    (s.setAppBlackListStatus g a false).1 =
      { (if s.firewallType = .blacklist then
          ({ s with firewallType := .undefined } : State).clearAppFirewallList
        else s) with
        watcher := if s.db .lockEnable = one then s.denotedWatcher g else none } := by
  by_cases hblack : s.firewallType = .blacklist
  · have hstart := lockAppStart_stopped (g := g) (a := a)
      (s := ({ s.stopService with firewallType := .undefined } : State).clearAppFirewallList)
      hg ha rfl
    by_cases hlock : s.db .lockEnable = one
    · simp only [State.setAppBlackListStatus, State.setAppLockListStatus, State.stopService, hblack,
        State.clearAppFirewallList_db, hlock, Bool.false_eq_true, if_true, if_false]
      exact hstart
    · simp [State.setAppBlackListStatus, State.stopService, hblack, hlock,
        State.clearAppFirewallList]
  · have hstart := lockAppStart_stopped (g := g) (a := a) (s := s.stopService) hg ha rfl
    by_cases hlock : s.db .lockEnable = one
    · simp only [State.setAppBlackListStatus, State.setAppLockListStatus, State.stopService, hblack,
        hlock, Bool.false_eq_true, if_true, if_false]
      exact hstart
    · simp [State.setAppBlackListStatus, State.stopService, hblack, hlock]

theorem denotedWatcher_off (hblack : s.db .blackEnable ≠ one) :
    (if s.db .lockEnable = one then s.denotedWatcher g else none) = s.denotedWatcher g := by
  split
  · rfl
  · simp [State.denotedWatcher, State.lockUnion, State.blackNames, State.listed, *]

theorem onStartCommand_kept (lockType : ListType) (list : Text) :
    ∃ w, s.onStartCommand g a lockType list = { s with watcher := w } := by
  simp only [State.onStartCommand]
  split <;> exact ⟨_, rfl⟩

/-- A black list without names is not enforced: the firewall is left alone or cleared. -/
theorem setAppBlackListStatus_unnamed (hg : g.Documented) (ha : a.controllerSet)
    (hnames : parsePkgNamesFromJson g (s.db .blackList) = []) :
    let s' := (s.setAppBlackListStatus g a true).1
    s'.db = s.db ∧
      s'.watcher = (if s.lockUnion g = [] then s.watcher else s.denotedWatcher g) ∧
      ((s'.firewallType = s.firewallType ∧ s'.partTexts = s.partTexts) ∨
        (s'.firewallType = .undefined ∧ s'.partTexts = [])) := by
  simp only [State.setAppBlackListStatus, if_true, getMergedLockList_eq_nil hg]
  by_cases hunion : s.lockUnion g = []
  · simp [hunion]
  simp only [if_neg hunion, onStartCommand_merged hg ha hunion]
  by_cases hlist : s.db .blackList = []
  · simp [hlist, State.partTexts]
  simp only [if_neg hlist]
  rw [State.parseAppFirewallList_of_nil hnames]
  simp [State.uninstallListed, State.partTexts]

/-- What enabling a black list with names leaves when it returns: the names in the parts. -/
structure BlackEnforced (g : Gson) (a : Answers) (s s' : State) : Prop where
  db : s'.db = s.db
  firewallType : s'.firewallType = .blacklist
  parts : s'.partTexts =
    (cut (s.db .blackList) (parsePkgNamesFromJson g (s.db .blackList))).map g.toJson
  watcher : s'.watcher = (s.onStartCommand g a .blacklist (s.getMergedLockList g)).watcher
  uninstalled : s'.uninstalled = (s.uninstallListed a (s.db .blackList)).uninstalled

theorem setAppBlackListStatus_named (hg : g.Documented) (hon : s.db .blackEnable = one)
    (hnames : parsePkgNamesFromJson g (s.db .blackList) ≠ []) :
    ((s.setAppBlackListStatus g a true).2 = none ↔ ¬ Fits g (s.db .blackList)) ∧
      ((s.setAppBlackListStatus g a true).2 ≠ none →
        BlackEnforced g a s (s.setAppBlackListStatus g a true).1) := by
  have hunion : s.lockUnion g ≠ [] := by
    simp [State.lockUnion, State.blackNames, State.listed, hon, hnames]
  have hlist : s.db .blackList ≠ [] := by
    intro h
    rw [h, parsePkgNamesFromJson_nil hg] at hnames
    exact hnames rfl
  obtain ⟨w, hw⟩ := onStartCommand_kept (g := g) (a := a) (s := s) .blacklist (s.getMergedLockList g)
  simp only [State.setAppBlackListStatus, if_true, getMergedLockList_eq_nil hg, if_neg hunion, hw,
    if_neg hlist]
  obtain ⟨hthrew, hstored⟩ := State.parseAppFirewallList_spec (g := g) .blacklist (s.db .blackList)
    (s := (State.uninstallListed a (s.db .blackList) { s with watcher := w }).clearAppFirewallList)
    rfl hnames
  generalize State.parseAppFirewallList g .blacklist (s.db .blackList)
    (State.uninstallListed a (s.db .blackList) { s with watcher := w }).clearAppFirewallList =
    parsed at hthrew hstored ⊢
  obtain ⟨s', r⟩ := parsed
  cases r with
  | none => simpa using hthrew
  | some b =>
    obtain ⟨hb, hparts⟩ := hstored (by simp)
    obtain rfl : b = true := by simpa using hb
    refine ⟨by simpa using hthrew, fun _ => ⟨hparts.db, rfl, ?_, ?_, hparts.uninstalled⟩⟩
    · simpa [State.partTexts] using hparts.parts
    · rw [hw]
      exact hparts.watcher

end BlackList

section WhiteList

variable {g : Gson} {s : State}

/-- What enabling the white list leaves when it returns: its names, if any, in the parts. -/
structure WhiteEnforced (g : Gson) (s s' : State) : Prop where
  db : s'.db = s.db
  firewallType : s'.firewallType = .whitelist
  parts : s'.partTexts =
    (cut (s.db .whiteList) (parsePkgNamesFromJson g (s.db .whiteList))).map g.toJson
  watcher : s'.watcher = s.watcher

theorem setAppWhiteListStatus_on (hg : g.Documented) :
    ((s.setAppWhiteListStatus g true).2 = none ↔ ¬ Fits g (s.db .whiteList)) ∧
      ((s.setAppWhiteListStatus g true).2 ≠ none →
        WhiteEnforced g s (s.setAppWhiteListStatus g true).1) := by
  by_cases hnames : parsePkgNamesFromJson g (s.db .whiteList) = []
  · have hcut : cut (s.db .whiteList) (parsePkgNamesFromJson g (s.db .whiteList)) = [] := by
      rw [hnames, cut, if_pos rfl]
    have hfits : Fits g (s.db .whiteList) := by
      rw [Fits, hcut]
      exact List.forall_mem_nil _
    have hset : s.setAppWhiteListStatus g true =
        ({ s.clearAppFirewallList with firewallType := .whitelist }, some true) := by
      simp only [State.setAppWhiteListStatus, if_true, State.parseAppFirewallList_of_nil hnames,
        decide_true, ite_self]
    rw [hset]
    refine ⟨by simpa using hfits, fun _ => ⟨rfl, rfl, ?_, rfl⟩⟩
    rw [hcut]
    rfl
  · have hlist : s.db .whiteList ≠ [] := by
      intro h
      rw [h, parsePkgNamesFromJson_nil hg] at hnames
      exact hnames rfl
    obtain ⟨hthrew, hstored⟩ := State.parseAppFirewallList_spec (g := g) .whitelist
      (s.db .whiteList) (s := s.clearAppFirewallList) rfl hnames
    simp only [State.setAppWhiteListStatus, if_true, if_neg hlist]
    generalize s.clearAppFirewallList.parseAppFirewallList g .whitelist (s.db .whiteList) = parsed
      at hthrew hstored ⊢
    obtain ⟨s', r⟩ := parsed
    cases r with
    | none => simpa using hthrew
    | some b =>
      obtain ⟨hb, hparts⟩ := hstored (by simp)
      obtain rfl : b = true := by simpa using hb
      refine ⟨by simpa using hthrew, fun _ => ⟨hparts.db, rfl, ?_, hparts.watcher⟩⟩
      simpa [State.partTexts] using hparts.parts

end WhiteList

section Steps

variable {g : Gson} {s s' : State}

/-- What was stored in parts is what an installation reads. -/
theorem firewallNames_of_parts (hg : g.Documented) {list : Text}
    (h : s.partTexts = (cut list (parsePkgNamesFromJson g list)).map g.toJson) :
    s.firewallNames g = parsePkgNamesFromJson g list := by
  have hflat : (cut list (parsePkgNamesFromJson g list)).flatten = parsePkgNamesFromJson g list :=
    cut_flatten fun name => ne_nil_of_mem_parsePkgNamesFromJson
  have hpart : ∀ part ∈ cut list (parsePkgNamesFromJson g list),
      parsePkgNamesFromJson g (g.toJson part) = part := by
    intro part hpart
    apply parsePkgNamesFromJson_toJson hg
    intro name hname
    have hmem : name ∈ (cut list (parsePkgNamesFromJson g list)).flatten :=
      List.mem_flatten_of_mem hpart hname
    rw [hflat] at hmem
    exact ne_nil_of_mem_parsePkgNamesFromJson hmem
  rw [State.firewallNames, h, List.flatMap_map, List.flatMap_congr hpart, List.flatMap_id', hflat]

/-- One set. -/
structure Request where
  path : Param
  value : Text
  answers : Answers

/-- The invoker of the setter catches what it throws. -/
def setStep (g : Gson) (i : Request) (s : State) : Option State :=
  some (s.setAppBatchParams g i.answers i.path i.value).1

def ListKept (g : Gson) (s : State) (i : Request) (list enable : Param) : Prop :=
  i.answers.stored → s.db enable = one →
    parsePkgNamesFromJson g i.value = parsePkgNamesFromJson g (s.db list)

def SwitchTaken (g : Gson) (s : State) (i : Request) (list : Param) : Prop :=
  i.answers.stored ∧ i.answers.storedOff ∧ i.answers.controllerSet ∧
    (i.value = one → Fits g (s.db list))

/-- A list keeps its names while its switch is on, and a switch that is set is stored, its
watcher is taken and the parts of the list it turns on fit. -/
def SetMeets (g : Gson) (s : State) (i : Request) : Prop :=
  match i.path with
  | .lockList => ListKept g s i .lockList .lockEnable
  | .blackList => ListKept g s i .blackList .blackEnable
  | .whiteList => ListKept g s i .whiteList .whiteEnable
  | .lockEnable => i.answers.stored ∧ i.answers.controllerSet
  | .blackEnable => SwitchTaken g s i .blackList
  | .whiteEnable => SwitchTaken g s i .whiteList

theorem listed_setDBParam {stored : Bool} {list enable l e : Param} {value : Text}
    (h : stored → s.db enable = one →
      parsePkgNamesFromJson g value = parsePkgNamesFromJson g (s.db list))
    (he : e ≠ list) (hl : l = list → e = enable) :
    (s.setDBParam stored list value).listed g l e = s.listed g l e := by
  cases stored with
  | false => rfl
  | true =>
    by_cases hlist : l = list
    · obtain rfl := hlist
      obtain rfl := hl rfl
      by_cases hon : s.db e = one
      · simpa [State.listed, State.setDBParam, he, hon] using h rfl hon
      · simp [State.listed, State.setDBParam, he, hon]
    · simp [State.listed, State.setDBParam, he, hlist]

/-- A state with the same black and white list denotes the same firewall. -/
theorem denotes_of_firewall (hs : s.Denotes g)
    (hblackOn : s'.db .blackEnable = s.db .blackEnable)
    (hwhiteOn : s'.db .whiteEnable = s.db .whiteEnable)
    (hblack : s'.blackNames g = s.blackNames g)
    (hwhite : s'.listed g .whiteList .whiteEnable = s.listed g .whiteList .whiteEnable)
    (htype : s'.firewallType = s.firewallType) (hparts : s'.partTexts = s.partTexts)
    (hwatcher : s'.watcher = s'.denotedWatcher g) : s'.Denotes g where
  oneList := by
    rw [hblackOn, hwhiteOn]
    exact hs.oneList
  firewall := by
    rw [State.denotedFirewall, State.firewallNames, hblack, hwhiteOn, hwhite, htype, hparts]
    exact hs.firewall
  watcher := hwatcher

theorem setDBParam_eq (stored : Bool) (path : Param) (value : Text) (s : State) :
    ∃ db, s.setDBParam stored path value = { s with db := db } := by
  unfold State.setDBParam
  split <;> exact ⟨_, rfl⟩

/-- A list set to other names under a switch that is off, or to the same names. -/
theorem denotes_setList (enable : Param) (hs : s.Denotes g) {i : Request} {list : Param}
    (hkept : ListKept g s i list enable)
    (hlist : (list, enable) ∈
      [(.lockList, .lockEnable), (.blackList, .blackEnable), (.whiteList, .whiteEnable)]) :
    (s.setDBParam i.answers.stored list i.value).Denotes g := by
  have hswitch : ∀ e : Param, e ≠ list →
      (s.setDBParam i.answers.stored list i.value).db e = s.db e := by
    intro e he
    unfold State.setDBParam
    split
    · exact Function.update_of_ne he _ _
    · rfl
  have hsame := fun l e => listed_setDBParam (l := l) (e := e) hkept
  obtain ⟨db, hdb⟩ := setDBParam_eq i.answers.stored list i.value s
  rw [hdb] at hswitch hsame ⊢
  simp only [List.mem_cons, List.not_mem_nil, or_false, Prod.mk.injEq] at hlist
  have hblackOn := hswitch .blackEnable (by rcases hlist with h | h | h <;> simp [h])
  have hwhiteOn := hswitch .whiteEnable (by rcases hlist with h | h | h <;> simp [h])
  have hlock := hsame .lockList .lockEnable (by rcases hlist with h | h | h <;> simp [h])
    (by rcases hlist with h | h | h <;> simp [h])
  have hblack := hsame .blackList .blackEnable (by rcases hlist with h | h | h <;> simp [h])
    (by rcases hlist with h | h | h <;> simp [h])
  have hwhite := hsame .whiteList .whiteEnable (by rcases hlist with h | h | h <;> simp [h])
    (by rcases hlist with h | h | h <;> simp [h])
  apply denotes_of_firewall hs hblackOn hwhiteOn hblack hwhite rfl rfl
  rw [State.denotedWatcher, State.lockUnion, State.blackNames, hblack, hlock]
  exact hs.watcher

/-- The switch of the lock list set to a value. -/
theorem denotes_lockEnable (hg : g.Documented) {a : Answers} (ha : a.controllerSet) {value : Text}
    (hs : s.Denotes g) :
    (({ s with db := Function.update s.db .lockEnable value } : State).setAppLockListStatus g a
      (value = one)).Denotes g := by
  have hrest : ∀ w, w = State.denotedWatcher g
        ({ s with db := Function.update s.db .lockEnable value }) →
      ({ s with db := Function.update s.db .lockEnable value, watcher := w } : State).Denotes g := by
    intro w hw
    apply denotes_of_firewall hs
    all_goals simp [State.blackNames, State.listed, State.partTexts]
    exact hw
  by_cases hon : value = one
  · subst hon
    simp only [decide_true, State.setAppLockListStatus, if_true]
    rw [lockAppStart_eq hg ha]
    apply hrest
    split
    · rename_i hnil
      have hold : s.lockUnion g = [] := by
        simp [State.lockUnion, State.blackNames, State.listed] at hnil ⊢
        exact ⟨hnil.1, fun _ => hnil.2⟩
      exact (hs.watcher.trans (if_pos hold)).trans (if_pos hnil).symm
    · rfl
  · simp only [hon, decide_false]
    rw [setAppLockListStatus_off hg ha (by simpa using hon)]
    exact hrest _ rfl

section Off

variable {a : Answers}

theorem blackNames_ne_nil_of_type (hs : s.Denotes g) (h : s.firewallType = .blacklist) :
    s.blackNames g ≠ [] := by
  intro hnil
  have hfw := hs.firewall
  rw [State.denotedFirewall, if_neg (not_not_intro hnil), h] at hfw
  split at hfw <;> simp at hfw

theorem whiteOn_of_type (hs : s.Denotes g) (h : s.firewallType = .whitelist) :
    s.blackNames g = [] ∧ s.db .whiteEnable = one := by
  have hfw := hs.firewall
  rw [State.denotedFirewall, h] at hfw
  by_cases hnil : s.blackNames g = []
  · refine ⟨hnil, ?_⟩
    by_contra hoff
    simp [hnil, hoff] at hfw
  · simp [hnil] at hfw

theorem blackOn_of_names (h : s.blackNames g ≠ []) : s.db .blackEnable = one := by
  by_contra hoff
  exact h (if_neg hoff)

/-- The black list turned off. -/
theorem denotes_blackOff (hg : g.Documented) (ha : a.controllerSet) {value : Text}
    (hvalue : value ≠ one) (hs : s.Denotes g) :
    (({ s with db := Function.update s.db .blackEnable value } : State).setAppBlackListStatus g a
      false).1.Denotes g := by
  have hoff : ({ s with db := Function.update s.db .blackEnable value } : State).db .blackEnable ≠
      one := by simpa using hvalue
  rw [setAppBlackListStatus_off hg ha, denotedWatcher_off hoff]
  by_cases htype : s.firewallType = .blacklist
  · have hblack := blackNames_ne_nil_of_type hs htype
    have hwhite : s.db .whiteEnable ≠ one := fun h => hs.oneList ⟨blackOn_of_names hblack, h⟩
    simp only [htype, if_true]
    constructor
    · simp [hvalue]
    · simp [State.firewallNames, State.denotedFirewall, State.blackNames, State.listed, hvalue,
        hwhite, State.clearAppFirewallList, State.partTexts]
    · rfl
  · have hblack : s.blackNames g = [] := by
      by_contra hne
      have hfw := hs.firewall
      rw [State.denotedFirewall, if_pos hne] at hfw
      exact htype (congrArg Prod.fst hfw)
    simp only [htype, if_false]
    constructor
    · simp [hvalue]
    · have hfw := hs.firewall
      rw [State.denotedFirewall, if_neg (not_not_intro hblack)] at hfw
      simpa [State.firewallNames, State.denotedFirewall, State.blackNames, State.listed, hvalue,
        State.partTexts] using hfw
    · rfl

/-- The white list turned off. -/
theorem denotes_whiteOff {value : Text} (hvalue : value ≠ one) (hs : s.Denotes g) :
    (({ s with db := Function.update s.db .whiteEnable value } : State).setAppWhiteListStatus g
      false).1.Denotes g := by
  simp only [State.setAppWhiteListStatus, Bool.false_eq_true, if_false]
  have hwatcher := hs.watcher
  by_cases htype : s.firewallType = .whitelist
  · have hblack := (whiteOn_of_type hs htype).1
    rw [if_pos htype]
    constructor
    · simp [hvalue]
    · have hnil : ∀ s' : State, s'.db = Function.update s.db .whiteEnable value →
          s'.blackNames g = [] := by
        intro s' hdb
        rw [← hblack]
        simp [State.blackNames, State.listed, hdb]
      rw [State.denotedFirewall, if_neg (not_not_intro (hnil _ rfl))]
      simp [State.firewallNames, hvalue]
    · simpa [State.denotedWatcher, State.lockUnion, State.blackNames, State.listed] using hwatcher
  · rw [if_neg htype]
    constructor
    · simp [hvalue]
    · have hfw := hs.firewall
      by_cases hblack : s.blackNames g = []
      · have hwhite : s.db .whiteEnable ≠ one := by
          intro hon
          rw [State.denotedFirewall, if_neg (not_not_intro hblack), if_pos hon] at hfw
          exact htype (congrArg Prod.fst hfw)
        rw [State.denotedFirewall, if_neg (not_not_intro hblack), if_neg hwhite] at hfw
        have hnil : ({ s with db := Function.update s.db .whiteEnable value } : State).blackNames g =
            [] := by
          rw [← hblack]
          simp [State.blackNames, State.listed]
        rw [State.denotedFirewall, if_neg (not_not_intro hnil)]
        simpa [hvalue, State.firewallNames, State.partTexts] using hfw
      · rw [State.denotedFirewall, if_pos hblack] at hfw
        have hsame : ({ s with db := Function.update s.db .whiteEnable value } : State).blackNames g =
            s.blackNames g := by
          simp [State.blackNames, State.listed]
        rw [State.denotedFirewall, hsame, if_pos hblack]
        exact hfw
    · simpa [State.denotedWatcher, State.lockUnion, State.blackNames, State.listed] using hwatcher

end Off

section On

variable {a : Answers}

/-- The black list turned on while the white list is off. -/
theorem denotes_blackOn (hg : g.Documented) (ha : a.controllerSet)
    (hfits : Fits g (s.db .blackList)) (hwhite : s.db .whiteEnable ≠ one) (hs : s.Denotes g) :
    (({ s with db := Function.update s.db .blackEnable one } : State).setAppBlackListStatus g a
      true).1.Denotes g := by
  let t : State := { s with db := Function.update s.db .blackEnable one }
  have hlist : t.db .blackList = s.db .blackList := by simp [t]
  have hon : t.db .blackEnable = one := by simp [t]
  have hoff : t.db .whiteEnable ≠ one := by simpa [t] using hwhite
  have hblack : t.blackNames g = parsePkgNamesFromJson g (s.db .blackList) := by
    rw [State.blackNames, State.listed, if_pos hon, hlist]
  have hlock : t.listed g .lockList .lockEnable = s.listed g .lockList .lockEnable := by
    simp [t, State.listed]
  change (t.setAppBlackListStatus g a true).1.Denotes g
  have hsame : ∀ s' : State, s'.db = t.db →
      s'.blackNames g = t.blackNames g ∧ s'.denotedWatcher g = t.denotedWatcher g := by
    intro s' hdb
    simp [State.denotedWatcher, State.lockUnion, State.blackNames, State.listed, hdb]
  by_cases hnames : parsePkgNamesFromJson g (s.db .blackList) = []
  · obtain ⟨hdb, hwatcher, hfirewall⟩ :=
      setAppBlackListStatus_unnamed (s := t) hg ha (by rw [hlist, hnames])
    have hold : s.blackNames g = [] := by
      simp [State.blackNames, State.listed, hnames]
    have hunion : t.lockUnion g = s.lockUnion g := by
      rw [State.lockUnion, State.lockUnion, hblack, hnames, hlock, hold]
    have hfw := hs.firewall
    rw [State.denotedFirewall, if_neg (not_not_intro hold), if_neg hwhite] at hfw
    obtain ⟨hblackSame, hdenoted⟩ := hsame _ hdb
    constructor
    · rw [hdb]
      exact fun h => hoff h.2
    · rw [State.denotedFirewall, hblackSame, hblack, if_neg (not_not_intro hnames), hdb, if_neg hoff]
      rcases hfirewall with ⟨htype, hparts⟩ | ⟨htype, hparts⟩
      · rw [htype, State.firewallNames, hparts]
        exact hfw
      · rw [htype, State.firewallNames, hparts]
        rfl
    · rw [hwatcher, hdenoted]
      by_cases hnil : t.lockUnion g = []
      · rw [if_pos hnil, State.denotedWatcher, if_pos hnil]
        rw [hunion] at hnil
        exact hs.watcher.trans (if_pos hnil)
      · rw [if_neg hnil]
  · obtain ⟨hthrew, henforced⟩ := setAppBlackListStatus_named (a := a) hg hon (by rwa [hlist])
    rw [hlist] at hthrew
    have hdone := henforced fun h => hthrew.mp h hfits
    obtain ⟨hblackSame, hdenoted⟩ := hsame _ hdone.db
    have hunion : t.lockUnion g ≠ [] := by simp [State.lockUnion, hblack, hnames]
    constructor
    · rw [hdone.db]
      exact fun h => hoff h.2
    · rw [State.denotedFirewall, hblackSame, hblack, if_pos hnames, hdone.firewallType,
        firewallNames_of_parts hg hdone.parts, hlist]
    · rw [hdone.watcher, onStartCommand_merged hg ha hunion, hdenoted]

/-- The white list turned on while the black list is off. -/
theorem denotes_whiteOn (hg : g.Documented) (hfits : Fits g (s.db .whiteList))
    (hblack : s.db .blackEnable ≠ one) (hs : s.Denotes g) :
    (({ s with db := Function.update s.db .whiteEnable one } : State).setAppWhiteListStatus g
      true).1.Denotes g := by
  let t : State := { s with db := Function.update s.db .whiteEnable one }
  have hlist : t.db .whiteList = s.db .whiteList := by simp [t]
  change (t.setAppWhiteListStatus g true).1.Denotes g
  obtain ⟨hthrew, henforced⟩ := setAppWhiteListStatus_on (s := t) hg
  rw [hlist] at hthrew
  have hdone := henforced fun h => hthrew.mp h hfits
  have hon : t.db .whiteEnable = one := by simp [t]
  have hoff : t.db .blackEnable ≠ one := by simpa [t] using hblack
  have hnil : (t.setAppWhiteListStatus g true).1.blackNames g = [] := by
    rw [State.blackNames, State.listed, hdone.db, if_neg hoff]
  constructor
  · rw [hdone.db]
    exact fun h => hoff h.1
  · rw [State.denotedFirewall, if_neg (not_not_intro hnil), State.listed, hdone.db, if_pos hon,
      if_pos hon, hdone.firewallType, firewallNames_of_parts hg hdone.parts]
  · have hsame : (t.setAppWhiteListStatus g true).1.denotedWatcher g = s.denotedWatcher g := by
      simp [State.denotedWatcher, State.lockUnion, State.blackNames, State.listed, hdone.db, t]
    rw [hdone.watcher, hsame]
    exact hs.watcher

end On

section Other

variable {a : Answers}

theorem setAppWhiteListStatus_db : (s.setAppWhiteListStatus g false).1.db = s.db := by
  by_cases htype : s.firewallType = .whitelist <;> simp [State.setAppWhiteListStatus, htype]

theorem setAppBlackListStatus_db (hg : g.Documented) (ha : a.controllerSet) :
    (s.setAppBlackListStatus g a false).1.db = s.db := by
  rw [setAppBlackListStatus_off hg ha]
  by_cases htype : s.firewallType = .blacklist <;> simp [htype]

/-- Turning the white list off after the black list was stored as on leaves what storing
the black list as on after it does. -/
theorem turnWhiteListOff_comm (ha : a.storedOff) :
    let t := ({ s with db := Function.update s.db .whiteEnable zero } : State).setAppWhiteListStatus g
      false
    ({ s with db := Function.update s.db .blackEnable one } : State).turnWhiteListOff g a =
      { t.1 with db := Function.update t.1.db .blackEnable one } := by
  have hcomm : Function.update (Function.update s.db .blackEnable one) .whiteEnable zero =
      Function.update (Function.update s.db .whiteEnable zero) .blackEnable one :=
    Function.update_comm (by decide) _ _ _
  by_cases htype : s.firewallType = .whitelist <;>
    simp [State.turnWhiteListOff, State.setDBParam, State.setAppWhiteListStatus, ha, htype, hcomm,
      State.clearAppFirewallList]

theorem turnBlackListOff_comm (hg : g.Documented) (ha : a.controllerSet) (hoff : a.storedOff) :
    let t := ({ s with db := Function.update s.db .blackEnable zero } : State).setAppBlackListStatus g
      a false
    ({ s with db := Function.update s.db .whiteEnable one } : State).turnBlackListOff g a =
      { t.1 with db := Function.update t.1.db .whiteEnable one } := by
  have hcomm : Function.update (Function.update s.db .whiteEnable one) .blackEnable zero =
      Function.update (Function.update s.db .blackEnable zero) .whiteEnable one :=
    Function.update_comm (by decide) _ _ _
  simp only [State.turnBlackListOff, State.setDBParam, hoff, if_true]
  rw [setAppBlackListStatus_off hg ha, setAppBlackListStatus_off hg ha, hcomm]
  by_cases htype : s.firewallType = .blacklist <;>
    simp [htype, State.clearAppFirewallList, State.denotedWatcher, State.lockUnion,
      State.blackNames, State.listed]

end Other

/-- One set keeps what is enforced and what is denoted equal. -/
theorem denotes_setStep (hg : g.Documented) {i : Request} (hmeets : SetMeets g s i)
    (hstep : setStep g i s = some s') (hs : s.Denotes g) : s'.Denotes g := by
  obtain ⟨path, value, a⟩ := i
  obtain rfl : (s.setAppBatchParams g a path value).1 = s' := by simpa [setStep] using hstep
  have hzero : zero ≠ one := by decide
  cases path with
  | lockList => exact denotes_setList .lockEnable hs hmeets (by simp)
  | blackList => exact denotes_setList .blackEnable hs hmeets (by simp)
  | whiteList => exact denotes_setList .whiteEnable hs hmeets (by simp)
  | lockEnable =>
    obtain ⟨hstored, ha⟩ := hmeets
    have hwrite : s.setDBParam a.stored .lockEnable value =
        { s with db := Function.update s.db .lockEnable value } := if_pos hstored
    simp only [State.setAppBatchParams, hwrite]
    exact denotes_lockEnable hg ha hs
  | blackEnable =>
    obtain ⟨hstored, hstoredOff, ha, hfits⟩ := hmeets
    have hwrite : s.setDBParam a.stored .blackEnable value =
        { s with db := Function.update s.db .blackEnable value } := if_pos hstored
    simp only [State.setAppBatchParams, hwrite]
    by_cases hvalue : value = one
    · subst hvalue
      have hwhiteOn : Function.update s.db .blackEnable one .whiteEnable = s.db .whiteEnable := by
        simp
      simp only [decide_true, true_and, hwhiteOn]
      by_cases hwhite : s.db .whiteEnable = one
      · rw [if_pos hwhite, turnWhiteListOff_comm hstoredOff]
        refine denotes_blackOn hg ha ?_ ?_ (denotes_whiteOff hzero hs)
        · rw [setAppWhiteListStatus_db]
          simpa using hfits rfl
        · rw [setAppWhiteListStatus_db]
          simpa using hzero
      · rw [if_neg hwhite]
        exact denotes_blackOn hg ha (hfits rfl) hwhite hs
    · simp only [hvalue, decide_false, Bool.false_eq_true, false_and, if_false]
      exact denotes_blackOff hg ha hvalue hs
  | whiteEnable =>
    obtain ⟨hstored, hstoredOff, ha, hfits⟩ := hmeets
    have hwrite : s.setDBParam a.stored .whiteEnable value =
        { s with db := Function.update s.db .whiteEnable value } := if_pos hstored
    simp only [State.setAppBatchParams, hwrite]
    by_cases hvalue : value = one
    · subst hvalue
      have hblackOn : Function.update s.db .whiteEnable one .blackEnable = s.db .blackEnable := by
        simp
      simp only [decide_true, true_and, hblackOn]
      by_cases hblack : s.db .blackEnable = one
      · rw [if_pos hblack, turnBlackListOff_comm hg ha hstoredOff]
        refine denotes_whiteOn hg ?_ ?_ (denotes_blackOff hg ha hzero hs)
        · rw [setAppBlackListStatus_db hg ha]
          simpa using hfits rfl
        · rw [setAppBlackListStatus_db hg ha]
          simpa using hzero
      · rw [if_neg hblack]
        exact denotes_whiteOn hg (hfits rfl) hblack hs
    · simp only [hvalue, decide_false, Bool.false_eq_true, false_and, if_false]
      exact denotes_whiteOff hvalue hs

end Steps

section Runs

variable {g : Gson}

/-- Nothing is stored and nothing is enforced. -/
def noLists : State := ⟨fun _ => [], .undefined, 0, fun _ => [], none, []⟩

theorem denotes_noLists (g : Gson) : noLists.Denotes g := by
  have hnil : [] ≠ one := by decide
  have hblack : noLists.blackNames g = [] := by
    simp [State.blackNames, State.listed, noLists, hnil]
  have hlock : noLists.listed g .lockList .lockEnable = [] := by
    simp [State.listed, noLists, hnil]
  constructor
  · exact fun h => hnil h.1
  · rw [State.denotedFirewall, hblack]
    simp [noLists, hnil, State.firewallNames, State.partTexts]
  · rw [State.denotedWatcher, State.lockUnion, hblack, hlock]
    rfl

/-- In a run of sets in which no list changes under its switch and every part fits, what is
enforced is always what the stored parameters denote. -/
theorem enforced_run (hg : g.Documented) {steps : List Request} {s : State}
    (hmeets : RunMeets (setStep g) (SetMeets g) steps noLists)
    (hrun : run (setStep g) steps noLists = some s) : s.Denotes g :=
  run_keeps (fun _ _ _ hs hmeets hstep => denotes_setStep hg hmeets hstep hs)
    (denotes_noLists g) hmeets hrun

/-- Conversions that write and read compact arrays. -/
def compactGson : Gson := ⟨fun json => (names json).map (·.map some), array⟩

theorem compactGson_documented : compactGson.Documented where
  written := by
    intro l
    simp only [compactGson, names_array, Option.map_some]
  empty := by decide

def setTo (path : Param) (value : Text) : Request := ⟨path, value, ⟨true, true, true, []⟩⟩

instance (g : Gson) (s : State) (i : Request) : Decidable (SetMeets g s i) :=
  match i with
  | ⟨.lockList, _, _⟩ | ⟨.blackList, _, _⟩ | ⟨.whiteList, _, _⟩ =>
    inferInstanceAs (Decidable (_ → _ → _))
  | ⟨.lockEnable, _, _⟩ => inferInstanceAs (Decidable (_ ∧ _))
  | ⟨.blackEnable, _, _⟩ | ⟨.whiteEnable, _, _⟩ => inferInstanceAs (Decidable (_ ∧ _ ∧ _ ∧ (_ → _)))

def threeLists : List Request :=
  [setTo .blackList (array [text "com.a", text "com.b"]), setTo .lockList (array [text "com.c"]),
    setTo .lockEnable one, setTo .blackEnable one, setTo .whiteList (array [text "com.d"]),
    setTo .whiteEnable one]

theorem enforced_run_three_lists :
    ∃ s, run (setStep compactGson) threeLists noLists = some s ∧ s.Denotes compactGson ∧
      s.firewallType = .whitelist ∧ s.watcher = some ⟨.blacklist, [text "com.c"]⟩ := by
  have hmeets : RunMeets (setStep compactGson) (SetMeets compactGson) threeLists noLists := by
    decide
  exact ⟨_, rfl, enforced_run compactGson_documented hmeets rfl, by decide, by decide⟩

/-- A black list of 93 characters. -/
def fiveNames : Text := array
  [text "com.shop.player", text "com.shop.market", text "com.shop.reader", text "com.shop.message",
    text "com.shop.picture"]

/-- Five names are not cut although their array is longer than a property takes, so enabling
them throws. And a list emptied under its switch goes on being enforced when it is enabled
again. -/
theorem long_part_not_enforced :
    (∃ s, run (setStep compactGson) [setTo .blackList fiveNames, setTo .blackEnable one] noLists =
        some s ∧ s.firewallType = .undefined ∧ ¬ s.Denotes compactGson) ∧
      (∃ s, run (setStep compactGson)
          [setTo .blackList (array [text "com.a"]), setTo .blackEnable one,
            setTo .blackList (array []), setTo .blackEnable one] noLists = some s ∧
        s.firewallType = .blacklist ∧ s.lockUnion compactGson = [] ∧ s.watcher.isSome ∧
        ¬ s.Denotes compactGson) := by
  refine ⟨⟨_, rfl, by decide, fun h => absurd h.firewall (by decide)⟩, ⟨_, rfl, by decide,
    by decide, by decide, fun h => absurd h.firewall (by decide)⟩⟩

end Runs

end AppBatch
