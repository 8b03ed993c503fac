import SdtTr369.AppEnforcement

/-!
# Which packages the firewall judges right

Once a list is enabled, an installation is refused or allowed by searching the stored
text, so a package is taken for listed exactly when its name is part of a listed one.
The uninstallation searches the text of the list itself.
-/

namespace AppBatch

open JsonNames List

def PackageChar (c : UInt16) : Prop :=
  c = 46 ∨ c = 95 ∨ (48 ≤ c ∧ c ≤ 57) ∨ (65 ≤ c ∧ c ≤ 90) ∨ (97 ≤ c ∧ c ≤ 122)

instance (c : UInt16) : Decidable (PackageChar c) := inferInstanceAs (Decidable (_ ∨ _))

/-- Letters, digits, dots and underscores. -/
structure PackageName (p : Text) : Prop where
  nonempty : p ≠ []
  chars : ∀ c ∈ p, PackageChar c

instance (p : Text) : Decidable (PackageName p) :=
  have : Decidable (∀ c ∈ p, PackageChar c) := List.decidableBAll PackageChar p
  decidable_of_iff (p ≠ [] ∧ ∀ c ∈ p, PackageChar c) ⟨fun h => ⟨h.1, h.2⟩, fun h => ⟨h.1, h.2⟩⟩

/-- What is documented of the array written for package names: none of their characters is
escaped, and no blank is put between two names. -/
def Gson.Compact (g : Gson) : Prop :=
  ∀ names : List Text, (∀ name ∈ names, PackageName name) → g.toJson names = array names

inductive Side
  | black
  | white
  deriving DecidableEq

namespace Side

def list : Side → Param
  | black => .blackList
  | white => .whiteList

def enable : Side → Param
  | black => .blackEnable
  | white => .whiteEnable

def type : Side → ListType
  | black => .blacklist
  | white => .whitelist

end Side

/-- The installation of `p` is judged as the list says. -/
def Judges (side : Side) (names : List Text) (s : State) (p : Text) : Prop :=
  match side with
  | .black => s.isPkgAllowedToInstall p = false ↔ p ∈ names
  | .white => s.isPkgAllowedToInstall p = true ↔ p ∈ names

variable {list : Text} {names : List Text}

section Search

variable {g : Gson} {s s' : State} {p : Text}

theorem plain_of_packageChar (h : ∀ c ∈ p, PackageChar c) : Plain p := by
  intro c hc
  have hchar := h c hc
  refine ⟨?_, ?_, ?_, ?_, ?_⟩ <;> rintro rfl <;> revert hchar <;> decide

/-- The text searched for an installation holds a package name exactly when one of the
stored names does, however they were cut. -/
theorem infix_packageList (hg : g.Compact) (hnames : ∀ name ∈ names, PackageName name)
    (hp : PackageName p) (hparts : s.partTexts = (cut list names).map g.toJson) :
    p <:+: s.packageList ↔ ∃ name ∈ names, p <:+: name := by
  have hflat : (cut list names).flatten = names :=
    cut_flatten fun name hname => (hnames name hname).nonempty
  have hmem : ∀ part ∈ cut list names, ∀ name ∈ part, PackageName name := by
    intro part hpart name hname
    apply hnames
    rw [← hflat]
    exact mem_flatten_of_mem hpart hname
  have htext : s.packageList = (cut list names).flatMap array := by
    rw [State.packageList_eq, hparts, flatMap_def, map_congr_left]
    exact fun part hpart => hg part (hmem part hpart)
  rw [htext, infix_arrays (plain_of_packageChar hp.chars) hp.nonempty, hflat]
  exact fun part hpart name hname => plain_of_packageChar (hmem part hpart name hname).chars

theorem firewallNum_eq_zero_iff (hnames : ∀ name ∈ names, PackageName name)
    (hparts : s.partTexts = (cut list names).map g.toJson) : s.firewallNum = 0 ↔ names = [] := by
  have hflat : (cut list names).flatten = names :=
    cut_flatten fun name hname => (hnames name hname).nonempty
  have hlength : s.firewallNum = (cut list names).length := by
    simpa [State.partTexts] using congrArg List.length hparts
  constructor
  · intro h
    rw [hlength, length_eq_zero_iff] at h
    rw [← hflat, h]
    rfl
  · rintro rfl
    rw [hlength, cut, if_pos rfl]
    rfl

/-- A stored list judges a package right exactly when the package is listed or its name is
part of no listed name. -/
theorem judges_iff (hg : g.Compact) {side : Side} (hnames : ∀ name ∈ names, PackageName name)
    (hp : PackageName p) (htype : s.firewallType = side.type)
    (hblack : side = .black → names ≠ []) (hparts : s.partTexts = (cut list names).map g.toJson) :
    Judges side names s p ↔ p ∈ names ∨ ∀ name ∈ names, ¬ p <:+: name := by
  have hzero := firewallNum_eq_zero_iff hnames hparts
  have hinfix := infix_packageList hg hnames hp hparts
  have hself : p ∈ names → ∃ name ∈ names, p <:+: name := fun h => ⟨p, h, infix_rfl⟩
  have hright : ((∃ name ∈ names, p <:+: name) ↔ p ∈ names) ↔
      p ∈ names ∨ ∀ name ∈ names, ¬ p <:+: name := by
    by_cases hmem : p ∈ names
    · simp [hmem, hself hmem]
    · simp [hmem]
  rw [← hright]
  cases side with
  | black =>
    have hnum : s.firewallNum ≠ 0 := fun h => hblack rfl (hzero.mp h)
    by_cases h : ∃ name ∈ names, p <:+: name
    · simp [Judges, State.isPkgAllowedToInstall, hnum, htype, Side.type, hinfix, h]
    · simp [Judges, State.isPkgAllowedToInstall, hnum, htype, Side.type, hinfix, h]
  | white =>
    by_cases hnum : s.firewallNum = 0
    · simp [Judges, State.isPkgAllowedToInstall, htype, Side.type, hnum, hzero.mp hnum]
    · by_cases h : ∃ name ∈ names, p <:+: name
      · simp [Judges, State.isPkgAllowedToInstall, hnum, htype, Side.type, hinfix, h]
      · simp [Judges, State.isPkgAllowedToInstall, hnum, htype, Side.type, hinfix, h]

end Search

section Enabled

variable {g : Gson} {a : Answers} {s : State}

theorem turnWhiteListOff_kept :
    (s.turnWhiteListOff g a).uninstalled = s.uninstalled ∧
      ∀ e : Param, e ≠ .whiteEnable → (s.turnWhiteListOff g a).db e = s.db e := by
  have hset : (s.turnWhiteListOff g a).uninstalled = s.uninstalled ∧
      (s.turnWhiteListOff g a).db = (s.setDBParam a.storedOff .whiteEnable zero).db := by
    unfold State.turnWhiteListOff
    obtain ⟨db, hdb⟩ := setDBParam_eq a.storedOff .whiteEnable zero s
    refine ⟨?_, setAppWhiteListStatus_db⟩
    rw [hdb]
    by_cases htype : s.firewallType = .whitelist <;>
      simp [State.setAppWhiteListStatus, htype, State.clearAppFirewallList]
  refine ⟨hset.1, fun e he => ?_⟩
  rw [hset.2]
  cases hoff : a.storedOff <;> simp [State.setDBParam, he]

theorem lockAppStart_kept : ∃ w, s.lockAppStart g a = { s with watcher := w } := by
  simp only [State.lockAppStart]
  split
  · exact ⟨s.watcher, rfl⟩
  · exact onStartCommand_kept _ _

theorem turnBlackListOff_kept {e : Param} (he : e ≠ .blackEnable) :
    (s.turnBlackListOff g a).db e = s.db e := by
  have hset : ∀ t : State, (t.setAppBlackListStatus g a false).1.db = t.db := by
    intro t
    have hlock : ∀ u : State, u.db = t.db →
        (if u.db .lockEnable = one then (u.setAppLockListStatus g a true, some true)
          else (u, some true)).1.db = t.db := by
      intro u hu
      obtain ⟨w, hw⟩ := lockAppStart_kept (g := g) (a := a) (s := u)
      by_cases hon : u.db .lockEnable = one
      · rw [if_pos hon]
        simp [State.setAppLockListStatus, hw, hu]
      · rw [if_neg hon]
        exact hu
    simp only [State.setAppBlackListStatus, Bool.false_eq_true, if_false]
    apply hlock
    split <;> rfl
  rw [State.turnBlackListOff, hset]
  cases hoff : a.storedOff <;> simp [State.setDBParam, he]

/-- A list was turned on: its switch was stored and the set returned that it succeeded. -/
structure TurnedOn (g : Gson) (a : Answers) (side : Side) (s : State) : Prop where
  stored : a.stored
  returned : (s.setAppBatchParams g a side.enable one).2 = some true

/-- Turning the black list on stores its names in parts and uninstalls what its text holds. -/
theorem blackOn_enforced (hg : g.Documented) (hon : TurnedOn g a .black s)
    (hnames : parsePkgNamesFromJson g (s.db .blackList) ≠ []) :
    let s' := (s.setAppBatchParams g a .blackEnable one).1
    s'.firewallType = .blacklist ∧
      s'.partTexts =
        (cut (s.db .blackList) (parsePkgNamesFromJson g (s.db .blackList))).map g.toJson ∧
      s'.uninstalled = (s.uninstallListed a (s.db .blackList)).uninstalled := by
  have hset : ∃ t : State, t.db .blackList = s.db .blackList ∧ t.db .blackEnable = one ∧
      t.uninstalled = s.uninstalled ∧
      s.setAppBatchParams g a .blackEnable one = t.setAppBlackListStatus g a true := by
    obtain ⟨huninstalled, hkept⟩ :=
      turnWhiteListOff_kept (g := g) (a := a) (s := s.setDBParam a.stored .blackEnable one)
    have hlist := hkept .blackList (by decide)
    have henable := hkept .blackEnable (by decide)
    have hstored := hon.stored
    by_cases hwhite : s.db .whiteEnable = one
    · refine ⟨(s.setDBParam a.stored .blackEnable one).turnWhiteListOff g a, ?_, ?_, ?_, ?_⟩
      · simpa [State.setDBParam, hstored] using hlist
      · simpa [State.setDBParam, hstored] using henable
      · simpa [State.setDBParam, hstored] using huninstalled
      · simp [State.setAppBatchParams, State.setDBParam, hstored, hwhite]
    · refine ⟨s.setDBParam a.stored .blackEnable one, ?_, ?_, ?_, ?_⟩ <;>
        simp [State.setAppBatchParams, State.setDBParam, hstored, hwhite]
  obtain ⟨t, hlist, henable, huninstalled, heq⟩ := hset
  have hreturned := hon.returned
  simp only [Side.enable, heq] at hreturned ⊢
  have hdone := (setAppBlackListStatus_named (a := a) hg henable (by rwa [hlist])).2
    (by simp [hreturned])
  refine ⟨hdone.firewallType, ?_, ?_⟩
  · rw [hdone.parts, hlist]
  · rw [hdone.uninstalled, hlist, State.uninstallListed, State.uninstallListed, huninstalled]

/-- Turning the white list on stores its names in parts. -/
theorem whiteOn_enforced (hg : g.Documented) (hon : TurnedOn g a .white s) :
    let s' := (s.setAppBatchParams g a .whiteEnable one).1
    s'.firewallType = .whitelist ∧
      s'.partTexts =
        (cut (s.db .whiteList) (parsePkgNamesFromJson g (s.db .whiteList))).map g.toJson := by
  have hset : ∃ t : State, t.db .whiteList = s.db .whiteList ∧
      s.setAppBatchParams g a .whiteEnable one = t.setAppWhiteListStatus g true := by
    have hstored := hon.stored
    have hlist := turnBlackListOff_kept (g := g) (a := a)
      (s := s.setDBParam a.stored .whiteEnable one) (e := .whiteList) (by decide)
    by_cases hblack : s.db .blackEnable = one
    · refine ⟨(s.setDBParam a.stored .whiteEnable one).turnBlackListOff g a, ?_, ?_⟩
      · simpa [State.setDBParam, hstored] using hlist
      · simp [State.setAppBatchParams, State.setDBParam, hstored, hblack]
    · refine ⟨s.setDBParam a.stored .whiteEnable one, ?_, ?_⟩ <;>
        simp [State.setAppBatchParams, State.setDBParam, hstored, hblack]
  obtain ⟨t, hlist, heq⟩ := hset
  have hreturned := hon.returned
  simp only [Side.enable, heq] at hreturned ⊢
  have hdone := (setAppWhiteListStatus_on hg).2 (show (t.setAppWhiteListStatus g true).2 ≠ none by
    simp [hreturned])
  refine ⟨hdone.firewallType, ?_⟩
  rw [hdone.parts, hlist]

/-- The packages uninstalled are the listed ones that are no system applications. -/
def UninstallsListed (a : Answers) (names : List Text) (s s' : State) : Prop :=
  ∃ gone, s'.uninstalled = s.uninstalled ++ gone ∧
    ∀ q, q ∈ gone ↔ (q, false) ∈ a.installed ∧ q ∈ names

theorem uninstallsListed_iff {s' : State}
    (h : s'.uninstalled = (s.uninstallListed a list).uninstalled) :
    UninstallsListed a names s s' ↔
      ∀ q, (q, false) ∈ a.installed → (q <:+: list ↔ q ∈ names) := by
  have hgone : ∀ q, q ∈ ((a.installed.filter fun pkg =>
      decide (pkg.1 <:+: list) && !pkg.2).map (·.1)) ↔ (q, false) ∈ a.installed ∧ q <:+: list := by
    intro q
    simp only [mem_map, mem_filter, Bool.and_eq_true, decide_eq_true_eq,
      Bool.not_eq_true', Prod.exists, exists_and_right, exists_eq_right]
    constructor
    · rintro ⟨sys, hmem, hin, rfl⟩
      exact ⟨hmem, hin⟩
    · rintro ⟨hmem, hin⟩
      exact ⟨false, hmem, hin, rfl⟩
  rw [State.uninstallListed] at h
  constructor
  · rintro ⟨gone, heq, hmem⟩ q hq
    rw [h, append_cancel_left_eq] at heq
    have hboth := (hgone q).symm.trans (heq ▸ hmem q)
    simpa [hq] using hboth
  · intro hiff
    refine ⟨_, h, fun q => (hgone q).trans ?_⟩
    exact and_congr_right fun hq => hiff q hq

/-- Once a list of package names is enabled, a package is judged as the list says exactly when
it is listed or its name is part of no listed name, and enabling the black list uninstalls
the listed packages exactly when the text of the list holds no other installed one. -/
theorem enabled_judges_iff (hg : g.Documented) (hcompact : g.Compact) {side : Side}
    (hon : TurnedOn g a side s)
    (hnames : ∀ name ∈ parsePkgNamesFromJson g (s.db side.list), PackageName name)
    (hblack : side = .black → parsePkgNamesFromJson g (s.db side.list) ≠ []) :
    (∀ p, PackageName p →
      (Judges side (parsePkgNamesFromJson g (s.db side.list))
          (s.setAppBatchParams g a side.enable one).1 p ↔
        p ∈ parsePkgNamesFromJson g (s.db side.list) ∨
          ∀ name ∈ parsePkgNamesFromJson g (s.db side.list), ¬ p <:+: name)) ∧
      (side = .black →
        (UninstallsListed a (parsePkgNamesFromJson g (s.db side.list)) s
            (s.setAppBatchParams g a side.enable one).1 ↔
          ∀ q, (q, false) ∈ a.installed →
            (q <:+: s.db side.list ↔ q ∈ parsePkgNamesFromJson g (s.db side.list)))) := by
  cases side with
  | black =>
    obtain ⟨htype, hparts, huninstalled⟩ := blackOn_enforced hg hon (hblack rfl)
    exact ⟨fun p hp => judges_iff hcompact hnames hp htype hblack hparts,
      fun _ => uninstallsListed_iff huninstalled⟩
  | white =>
    obtain ⟨htype, hparts⟩ := whiteOn_enforced hg hon
    exact ⟨fun p hp => judges_iff hcompact hnames hp htype hblack hparts, nofun⟩

/-- A black list is stored and nothing is enabled. -/
def blackListed (names : List Text) : State :=
  { noLists with db := Function.update noLists.db .blackList (array names) }

def installing (installed : List (Text × Bool)) : Answers := ⟨true, true, true, installed⟩

def player : Text := text "com.shop.player"
def shop : Text := text "com.shop"

theorem compactGson_compact : compactGson.Compact := fun _ _ => rfl

theorem enabled_judges_iff_player :
    Judges .black [player]
        ((blackListed [player]).setAppBatchParams compactGson (installing [(player, false)])
          .blackEnable one).1 player ∧
      UninstallsListed (installing [(player, false)]) [player] (blackListed [player])
        ((blackListed [player]).setAppBatchParams compactGson (installing [(player, false)])
          .blackEnable one).1 := by
  have hnames : ∀ name ∈ parsePkgNamesFromJson compactGson ((blackListed [player]).db .blackList),
      PackageName name := by decide
  have hon : TurnedOn compactGson (installing [(player, false)]) .black (blackListed [player]) :=
    ⟨rfl, by decide⟩
  obtain ⟨hjudges, huninstalls⟩ := enabled_judges_iff compactGson_documented compactGson_compact
    hon hnames (fun _ => by decide)
  have hplayer : PackageName player := by decide
  refine ⟨(hjudges player hplayer).mpr (by decide), (huninstalls rfl).mpr fun q hq => ?_⟩
  obtain rfl : q = player := by simpa [installing] using hq
  decide

/-- With a black list of one package, a package whose name is the beginning of its is
refused and uninstalled. -/
theorem shop_uninstalled :
    let s' := ((blackListed [player]).setAppBatchParams compactGson (installing [(shop, false)])
      .blackEnable one)
    s'.2 = some true ∧ shop ∉ [player] ∧ s'.1.isPkgAllowedToInstall shop = false ∧
      s'.1.uninstalled = [shop] ∧ ¬ Judges .black [player] s'.1 shop := by
  refine ⟨by decide, by decide, by decide, by decide, ?_⟩
  intro h
  exact absurd (h.mp (by decide)) (by decide)

end Enabled

end AppBatch
