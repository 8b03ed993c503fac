import SdtTr369.GroupReads
import SdtTr369.HandleGet
import SdtTr369.ResolvedVectors
import Mathlib.Data.List.GetD

/-!
# What the response to a Get reports

Each path expression has its own result, at its own place. Without an error, the result
reports the parameters of the vector that the expression was resolved to, each with its own
value and under its own object. A parameter that the vector lists twice is reported twice,
so that the result is right exactly when the ends of the expression are apart
(`answers_right_iff`).
-/

namespace GetResponses

open UspTypes Schema SchemaInvariant EffectProgram Agent
open List
open DataModelRead ExprVector HeldInstances QuietReads PathResolver
open ResolverFrames ResolvedEnds ResolvedPaths ResolvedVectors
open FoundPaths GroupReads HandleGet PathRoundTrip

/-! ## The turn of an expression -/

/-- An expression with the state in which it is resolved, the vectors or the error that this
comes to, and its parameters as they have been read. -/
structure Turn where
  pathExpr : Str
  before : State
  outcome : Except Err (List Str × List (Option Nat))
  read : List GroupGetEntry

def Turn.listed (turn : Turn) : List Str :=
  match turn.outcome with
  | .error _ => []
  | .ok (params, _) => params

/-- What the turn adds to the group get vector. -/
def Turn.params (turn : Turn) : List GroupGetEntry :=
  match turn.outcome with
  | .error _ => []
  | .ok (params, groupIds) => newEntries params groupIds

/-- The expression has been resolved, and all its parameters could be read. -/
def Turn.Answered (turn : Turn) : Prop :=
  (∃ vectors, turn.outcome = .ok vectors) ∧
    ∀ gge ∈ turn.read, ∃ value, gge.outcome = some (.ok value)

section Turns

variable {N : Type} (S : DmTree) (P : PermissionTable) (W : World) (V : ValueRules N) (fuel : Nat)

/-- The expressions are resolved in turn, each where the one before has ended. -/
inductive Resolves (rq : Request) : List Str → State → List Turn → State → Prop where
  | nil {a : State} : Resolves rq [] a [] a
  | cons {pathExpr : Str} {pathExprs : List Str} {a b c : State}
      {outcome : Except Err (List Str × List (Option Nat))} {read : List GroupGetEntry}
      {turns : List Turn} :
      resolveIntoVectors S P W V fuel rq pathExpr a = some (.ok outcome, b) →
      Resolves rq pathExprs b turns c →
      Resolves rq (pathExpr :: pathExprs) a (⟨pathExpr, a, outcome, read⟩ :: turns) c

/-- The turns of a request from `a` to `a'`, which reads the parameters of all turns from `b` on,
each in a state of its own. -/
structure TurnsOf (rq : Request) (pathExprs : List Str) (a b a' : State) (turns : List Turn) :
    Prop where
  resolves : Resolves S P W V fuel rq pathExprs a turns b
  reads : groupGetValues S W (turns.flatMap Turn.params) b =
    some (.ok (turns.flatMap Turn.read), a')
  own : ∀ turn ∈ turns, List.Forall₂ (ReadsOwn S W b) turn.params turn.read

/-- The ends that a resolved turn passes, up to the state `b`. -/
def TurnEnds (rq : Request) (turn : Turn) (ends : List End) (b : State) : Prop :=
  (∃ params groupIds, turn.outcome = .ok (params, groupIds) ∧
    Passes S P W rq True ⟨turn.before, [], []⟩ ends ⟨b, params, groupIds⟩) ∧
  ∀ y, y ∈ ends ↔ ComesTo S P W V rq turn.pathExpr ⟨turn.before, [], []⟩ y

/-- No end of the turn comes upon a path of another one, and none lists a path without an object
in front of its name. -/
def ClearTurn (rq : Request) (turn : Turn) : Prop :=
  ∃ ends b, TurnEnds S P W V rq turn ends b ∧ EndsApart S P W rq [] b ends ∧
    ∀ y ∈ ends, ∀ p, EndLists S P W rq y b p → '.' ∈ p ∨ p = []

end Turns

/-! ## Right answers -/

/-- The parameters in a result, each with its full path. -/
def reported (results : List ResolvedPathResult) : List (Str × Option Str) :=
  results.flatMap fun result => result.resultParams.map fun entry =>
    (result.resolvedPath ++ entry.key, entry.value)

/-- Each parameter is reported once, with its own value, and nothing else is reported. -/
structure ReportsEach (read : List GroupGetEntry) (pairs : List (Str × Option Str)) : Prop where
  once : ∀ gge ∈ read, (pairs.map Prod.fst).count gge.path = 1
  value : ∀ gge ∈ read, ∀ value, gge.outcome = some (.ok value) → (gge.path, some value) ∈ pairs
  only : ∀ pair ∈ pairs, pair.1 ∈ read.map GroupGetEntry.path

/-- The result is that of the turn: an error where the expression was not resolved or one of its
parameters could not be read, and otherwise each of its parameters. -/
inductive Answers (turn : Turn) : RequestedPathResult → Prop where
  | unresolved {e : Err} : turn.outcome = .error e → Answers turn ⟨turn.pathExpr, some e, []⟩
  | unread {e : Err} {gge : GroupGetEntry} : (∃ vectors, turn.outcome = .ok vectors) →
      gge ∈ turn.read → gge.outcome = some (.error e) → Answers turn ⟨turn.pathExpr, some e, []⟩
  | values {results : List ResolvedPathResult} : turn.Answered →
      ReportsEach turn.read (reported results) → Answers turn ⟨turn.pathExpr, none, results⟩

/-! ## Objects and names -/

/-- The text of the path that a reported name has with its object. -/
def joined (path : Str) : Str := (splitPath path maxDmPath).1 ++ (splitPath path maxDmPath).2

theorem rdropWhile_append_rtakeWhile {α : Type} (p : α → Bool) (l : List α) :
    l.rdropWhile p ++ l.rtakeWhile p = l := by
  rw [List.rdropWhile, List.rtakeWhile, ← reverse_append, takeWhile_append_dropWhile,
    reverse_reverse]

theorem joined_eq {path : Str} (hlen : path.length ≤ maxDmPath - 1) :
    joined path = if '.' ∈ path then path else [] := by
  unfold joined splitPath
  split
  · have hobject := (List.rdropWhile_prefix (· ≠ '.') path).length_le
    rw [take_of_length_le (by omega), rdropWhile_append_rtakeWhile]
  · rfl

theorem joined_eq_iff {path : Str} (hlen : path.length ≤ maxDmPath - 1) :
    joined path = path ↔ '.' ∈ path ∨ path = [] := by
  rw [joined_eq hlen]
  split
  · rename_i hdot
    exact iff_of_true rfl (.inl hdot)
  · rename_i hdot
    rw [eq_comm, or_iff_right hdot]

/-! ## Results -/

section Results

variable {results : List ResolvedPathResult} {objPath : Str}

theorem findResolvedPath_some {i : Nat} (h : findResolvedPath results objPath = some i) :
    ∃ result, results[i]? = some result ∧ result.resolvedPath = objPath := by
  have hfound := find?_some h
  obtain ⟨result, hresult, hpath⟩ := (Option.any_eq_true _ _).mp hfound
  exact ⟨result, hresult, of_decide_eq_true hpath⟩

/-- Whichever result of the object is found, the parameter is reported under the object. -/
theorem addResolvedPathResult_reports (results : List ResolvedPathResult) (path : Str)
    (value : Option Str) :
    (reported (addResolvedPathResult results path value)).Perm
      (reported results ++ [(joined path, value)]) := by
  unfold addResolvedPathResult joined
  generalize splitPath path maxDmPath = parts
  obtain ⟨objPath, paramName⟩ := parts
  dsimp only
  split
  · rename_i i hfind
    obtain ⟨result, hresult, rfl⟩ := findResolvedPath_some hfind
    obtain ⟨hlt, hget⟩ := List.getElem?_eq_some_iff.mp hresult
    have hsplit : results = results.take i ++ result :: results.drop (i + 1) := by
      rw [← hget, cons_getElem_drop_succ, take_append_drop]
    have hmodify : results.modify i (addParamsEntry paramName value) = results.take i ++
        addParamsEntry paramName value result :: results.drop (i + 1) := by
      rw [modify_eq_take_cons_drop hlt, hget]
    rw [hmodify]
    conv_rhs => rw [hsplit]
    simp only [reported, flatMap_append, flatMap_cons, addParamsEntry, map_append,
      map_cons, map_nil, append_assoc]
    refine List.Perm.append_left _ (List.Perm.append_left _ ?_)
    exact perm_append_comm
  · simp [reported, addParamsEntry]

theorem formResults_reports (entries : List GroupGetEntry) (results : List ResolvedPathResult) :
    (reported (entries.foldl
        (fun results gge => addResolvedPathResult results gge.path (value gge)) results)).Perm
      (reported results ++ entries.map fun gge => (joined gge.path, value gge)) := by
  induction entries generalizing results with
  | nil => simp
  | cons gge entries ih =>
    rw [foldl_cons, map_cons]
    refine (ih _).trans ?_
    have hfirst := (addResolvedPathResult_reports results gge.path (value gge)).append_right
      (entries.map fun gge => (joined gge.path, value gge))
    rwa [append_assoc, singleton_append] at hfirst

end Results

/-! ## The answer to one expression -/

variable {turn : Turn} {ggv : List GroupGetEntry} {turns : List Turn}

section Answer

variable {read : List GroupGetEntry}

theorem errCode_none_iff {gge : GroupGetEntry} (hread : gge.outcome.isSome = true) :
    errCode gge = none ↔ ∃ value, gge.outcome = some (.ok value) := by
  unfold errCode
  cases hout : gge.outcome with
  | none =>
    rw [hout] at hread
    cases hread
  | some out => cases out <;> simp

theorem value_of_ok {gge : GroupGetEntry} {v : Str} (h : gge.outcome = some (.ok v)) :
    value gge = some v := by
  rw [value, h]

/-- The parameters are rightly reported when each is listed once and has an object. -/
theorem reportsEach_iff (hlen : ∀ gge ∈ read, gge.path.length ≤ maxDmPath - 1)
    {pairs : List (Str × Option Str)}
    (hpairs : pairs.Perm (read.map fun gge => (joined gge.path, value gge))) :
    ReportsEach read pairs ↔ (read.map GroupGetEntry.path).Nodup ∧
      ∀ gge ∈ read, '.' ∈ gge.path ∨ gge.path = [] := by
  have hpaths : (∀ gge ∈ read, '.' ∈ gge.path ∨ gge.path = []) →
      pairs.Perm (read.map fun gge => (gge.path, value gge)) := by
    intro hobjects
    refine hpairs.trans (List.Perm.of_eq (map_congr_left fun gge hgge => ?_))
    rw [(joined_eq_iff (hlen gge hgge)).mpr (hobjects gge hgge)]
  have hcount : (∀ gge ∈ read, '.' ∈ gge.path ∨ gge.path = []) → ∀ path,
      (pairs.map Prod.fst).count path = (read.map GroupGetEntry.path).count path := by
    intro hobjects path
    rw [((hpaths hobjects).map Prod.fst).count_eq, map_map]
    rfl
  constructor
  · intro h
    have hobjects : ∀ gge ∈ read, '.' ∈ gge.path ∨ gge.path = [] := by
      intro gge hgge
      have hmem : gge.path ∈ pairs.map Prod.fst :=
        List.count_pos_iff.mp (by rw [h.once gge hgge]; exact Nat.one_pos)
      obtain ⟨pair, hpair, hfst⟩ := List.mem_map.mp hmem
      obtain ⟨gge', hgge', rfl⟩ := List.mem_map.mp (hpairs.mem_iff.mp hpair)
      have hjoined : joined gge'.path = gge.path := hfst
      rw [joined_eq (hlen gge' hgge')] at hjoined
      split at hjoined
      · rename_i hdot
        exact .inl (hjoined ▸ hdot)
      · exact .inr hjoined.symm
    refine ⟨List.nodup_iff_count_le_one.mpr fun path => ?_, hobjects⟩
    rw [← hcount hobjects]
    by_cases hmem : path ∈ read.map GroupGetEntry.path
    · obtain ⟨gge, hgge, rfl⟩ := List.mem_map.mp hmem
      exact Nat.le_of_eq (h.once gge hgge)
    · rw [hcount hobjects, count_eq_zero_of_not_mem hmem]
      exact Nat.zero_le 1
  · rintro ⟨hnodup, hobjects⟩
    constructor
    · intro gge hgge
      rw [hcount hobjects]
      exact count_eq_one_of_mem hnodup (mem_map_of_mem hgge)
    · intro gge hgge v hv
      refine (hpaths hobjects).mem_iff.mpr (List.mem_map.mpr ⟨gge, hgge, ?_⟩)
      rw [value_of_ok hv]
    · intro pair hpair
      obtain ⟨gge, hgge, rfl⟩ := List.mem_map.mp ((hpaths hobjects).mem_iff.mp hpair)
      exact mem_map_of_mem hgge

/-- The result that the turn is given. -/
def Turn.result (turn : Turn) : RequestedPathResult :=
  match turn.outcome with
  | .error e => ⟨turn.pathExpr, some e, []⟩
  | .ok _ => formEntriesResponse turn.pathExpr turn.read

/-- A turn is rightly answered when, unless it is answered with an error, each of its parameters
is listed once and has an object. -/
theorem answers_result_iff (hread : ∀ gge ∈ turn.read, gge.outcome.isSome = true)
    (hlen : ∀ gge ∈ turn.read, gge.path.length ≤ maxDmPath - 1) :
    Answers turn turn.result ↔ (turn.Answered → (turn.read.map GroupGetEntry.path).Nodup ∧
      ∀ gge ∈ turn.read, '.' ∈ gge.path ∨ gge.path = []) := by
  unfold Turn.result
  cases houtcome : turn.outcome with
  | error e =>
    refine iff_of_true (.unresolved houtcome) fun hanswered => ?_
    obtain ⟨⟨vectors, hok⟩, -⟩ := hanswered
    rw [houtcome] at hok
    cases hok
  | ok vectors =>
    dsimp only
    unfold formEntriesResponse
    cases hfind : turn.read.findSome? errCode with
    | some e =>
      obtain ⟨gge, hgge, herr⟩ := exists_of_findSome?_eq_some hfind
      have hout : gge.outcome = some (.error e) := by
        unfold errCode at herr
        split at herr
        · cases herr
          assumption
        · cases herr
      refine iff_of_true (.unread ⟨vectors, houtcome⟩ hgge hout) fun hanswered => ?_
      obtain ⟨v, hv⟩ := hanswered.2 gge hgge
      rw [hv] at hout
      cases hout
    | none =>
      have hvalues : ∀ gge ∈ turn.read, ∃ value, gge.outcome = some (.ok value) := fun gge hgge =>
        (errCode_none_iff (hread gge hgge)).mp (List.findSome?_eq_none_iff.mp hfind gge hgge)
      have hanswered : turn.Answered := ⟨⟨vectors, houtcome⟩, hvalues⟩
      have hreports := formResults_reports turn.read []
      rw [← reportsEach_iff hlen hreports]
      constructor
      · rintro h -
        cases h with
        | values _ h => exact h
      · exact fun h => .values hanswered (h hanswered)

end Answer

/-! ## Resolving into the vectors -/

/-- The parameter groups that `usp_register.c` accepts. -/
def GroupsInside (S : DmTree) : Prop :=
  ∀ n ∈ S.nodes, ∀ group ∈ n.registered.groupId, group < maxVendorParamGroups

theorem groupOf_inside {S : DmTree} (h : GroupsInside S) {node : NodeId} {group : Nat}
    (hgroup : groupOf S node = some group) : group < maxVendorParamGroups := by
  unfold groupOf at hgroup
  split at hgroup
  · by_cases hlt : node < S.nodes.length
    · refine h (S.node node) ?_ group hgroup
      rw [DmTree.node, getD_eq_getElem _ _ hlt]
      exact getElem_mem hlt
    · rw [DmTree.node, getD_eq_default _ _ (Nat.le_of_not_lt hlt)] at hgroup
      cases hgroup
  · cases hgroup

section Vectors

variable {N : Type} {S : DmTree} {P : PermissionTable} {W : World} {V : ValueRules N} {fuel : Nat}
  {rq : Request} {path : Str} {a b : State} {params : List Str} {groupIds : List (Option Nat)}
  (hS : SchemaOk maxDmInstanceOrder S)

theorem resolveIntoVectors_ok
    (hrun : resolveIntoVectors S P W V fuel rq path a = some (.ok (.ok (params, groupIds)), b)) :
    "Device.".toList.isPrefixOf path = true ∧
      resolvePath S P W V fuel rq path ⟨a, [], []⟩ = some (.ok (), ⟨b, params, groupIds⟩) := by
  unfold resolveIntoVectors at hrun
  split at hrun
  · cases hrun
  · cases hrun
  · cases hrun
  · rename_i s hdevice
    cases hrun
    exact resolveDevicePath_ok hdevice

include hS

theorem resolveIntoVectors_quiet {r : Except Err (Except Err (List Str × List (Option Nat)))}
    (hrun : resolveIntoVectors S P W V fuel rq path a = some (r, b)) : Quiet S a b := by
  unfold resolveIntoVectors at hrun
  split at hrun
  · cases hrun
  · cases hrun
  · rename_i s hdevice
    cases hrun
    exact (resolveDevicePath_agentQuiet hS fuel rq path).of_run hdevice
  · rename_i s hdevice
    cases hrun
    exact (resolveDevicePath_agentQuiet hS fuel rq path).of_run hdevice

theorem vectors_match (hwants : rq.wantsPaths = true ∧ rq.wantsGroups = true)
    (hrun : resolveIntoVectors S P W V fuel rq path a = some (.ok (.ok (params, groupIds)), b)) :
    GroupsMatch S params groupIds :=
  (resolvePath_groups hS hwants.1 hwants.2 fuel path).of_run (resolveIntoVectors_ok hrun).2 .nil

theorem vectors_clear_iff (hop : answersPartial rq.op = true) (hok : StateOk S a)
    (hrun : resolveIntoVectors S P W V fuel rq path a = some (.ok (.ok (params, groupIds)), b))
    (read : List GroupGetEntry) :
    ClearTurn S P W V rq ⟨path, a, .ok (params, groupIds), read⟩ ↔
      params.Nodup ∧ ∀ p ∈ params, '.' ∈ p ∨ p = [] := by
  have hblind : AddsBlindly rq ['.'] := .inl ⟨hop, rfl⟩
  obtain ⟨ends, hpass, hsound, hall⟩ := resolvePath_visits hS (resolveIntoVectors_ok hrun).2
  constructor
  · rintro ⟨ends, c, ⟨⟨_, _, ⟨⟩, hpass⟩, -⟩, hapart, hobjects⟩
    have hsame := Quiet.refl S c
    refine ⟨passes_nodup hS hpass hok hsame nodup_nil hapart, fun p hp => ?_⟩
    obtain ⟨y, hy, hlists⟩ := ((passes_lists hS hpass hok hsame hblind).1 p hp).resolve_left
      not_mem_nil
    exact hobjects y hy p hlists
  · rintro ⟨hnodup, hobjects⟩
    have hsame := Quiet.refl S b
    rw [eq_self] at hpass
    refine ⟨ends, b, ⟨⟨params, groupIds, rfl, hpass⟩, fun y => ⟨hsound y, hall rfl y⟩⟩,
      passes_apart hS hpass hok hsame trivial hnodup, fun y hy p hlists => hobjects p ?_⟩
    exact (passes_lists hS hpass hok hsame hblind).2 trivial y hy p hlists

theorem vectors_short (hop : answersPartial rq.op = true) (hok : StateOk S a)
    (hrun : resolveIntoVectors S P W V fuel rq path a = some (.ok (.ok (params, groupIds)), b)) :
    ∀ p ∈ params, p.length ≤ maxDmPath - 1 := by
  intro p hp
  obtain ⟨y, -, hlen, hfinds⟩ := (resolvePath_finds hS hop hok (resolveIntoVectors_ok hrun).2
    hp).resolve_left not_mem_nil
  exact finds_length hfinds hlen

end Vectors

/-! ## The run of a request -/

/-- The information about a turn whose parameters begin at the index. -/
def Turn.info (turn : Turn) (index : Nat) : GetExprInfo :=
  match turn.outcome with
  | .error e => { err := some e }
  | .ok (params, _) => { index, numEntries := params.length }

def infos : Nat → List Turn → List GetExprInfo
  | _, [] => []
  | index, turn :: turns => turn.info index :: infos (index + turn.params.length) turns

section Run

variable {N : Type} {S : DmTree} {P : PermissionTable} {W : World} {V : ValueRules N} {fuel : Nat}
  {rq : Request} {a b : State}

theorem expandGetPathExpression_turn {pathExpr : Str} {r : GetExprInfo × List GroupGetEntry}
    (hrun : expandGetPathExpression S P W V fuel rq pathExpr ggv a = some (.ok r, b)) :
    ∃ outcome, resolveIntoVectors S P W V fuel rq pathExpr a = some (.ok outcome, b) ∧
      r = (Turn.info ⟨pathExpr, a, outcome, []⟩ ggv.length,
        ggv ++ Turn.params ⟨pathExpr, a, outcome, []⟩) := by
  obtain ⟨outcome, b', hresolve, hrest⟩ := bind_ok hrun
  cases outcome with
  | error e =>
    cases hrest
    exact ⟨_, hresolve, by simp [Turn.info, Turn.params]⟩
  | ok vectors =>
    obtain ⟨params, groupIds⟩ := vectors
    dsimp only at hrest
    split at hrest
    · rename_i hnil
      cases hrest
      exact ⟨_, hresolve, by simp [Turn.info, Turn.params, newEntries, hnil]⟩
    · obtain ⟨ggv', b'', hadd, hpure⟩ := bind_ok hrest
      obtain ⟨⟨⟩, b₃, hrequire, hggv⟩ := bind_ok hadd
      unfold Prog.require at hrequire
      split at hrequire
      · cases hrequire
        cases hggv
        cases hpure
        exact ⟨_, hresolve, rfl⟩
      · cases hrequire

theorem expandExpressions_turns {pathExprs : List Str} {r : List GetExprInfo × List GroupGetEntry}
    (hrun : expandExpressions S P W V fuel rq pathExprs ggv a = some (.ok r, b)) :
    ∃ turns, Resolves S P W V fuel rq pathExprs a turns b ∧
      r = (infos ggv.length turns, ggv ++ turns.flatMap Turn.params) := by
  induction pathExprs generalizing ggv a r with
  | nil =>
    cases hrun
    exact ⟨[], .nil, by simp [infos]⟩
  | cons pathExpr pathExprs ih =>
    obtain ⟨first, a₁, hfirst, hrun⟩ := bind_ok hrun
    obtain ⟨rest, a₂, hrest, hpure⟩ := bind_ok hrun
    cases hpure
    obtain ⟨outcome, hresolve, rfl⟩ := expandGetPathExpression_turn hfirst
    obtain ⟨turns, hresolves, rfl⟩ := ih hrest
    refine ⟨⟨pathExpr, a, outcome, []⟩ :: turns, .cons hresolve hresolves, ?_⟩
    simp [infos, append_assoc]

/-- The entries of the vector are handed back to the turns that they come from. -/
theorem resolves_read {R : GroupGetEntry → GroupGetEntry → Prop} {pathExprs : List Str}
    {gots : List GroupGetEntry} (h : Resolves S P W V fuel rq pathExprs a turns b)
    (hgots : List.Forall₂ R (turns.flatMap Turn.params) gots) :
    ∃ turns', Resolves S P W V fuel rq pathExprs a turns' b ∧ turns'.flatMap Turn.read = gots ∧
      turns'.flatMap Turn.params = turns.flatMap Turn.params ∧
      (∀ index, infos index turns' = infos index turns) ∧
      ∀ turn ∈ turns', List.Forall₂ R turn.params turn.read := by
  induction h generalizing gots with
  | nil =>
    cases hgots
    exact ⟨[], .nil, rfl, rfl, fun _ => rfl, nofun⟩
  | @cons pathExpr pathExprs a b c outcome read turns hresolve _ ih =>
    generalize hturn : (⟨pathExpr, a, outcome, read⟩ : Turn) = turn at hgots
    rw [flatMap_cons] at hgots
    have hfirst := forall₂_take_append _ _ _ hgots.flip
    have hrest := forall₂_drop_append _ _ _ hgots.flip
    obtain ⟨turns', hresolves, hread, hparams, hinfos, hown⟩ := ih hrest.flip
    subst hturn
    refine ⟨⟨pathExpr, a, outcome, gots.take _⟩ :: turns', .cons hresolve hresolves, ?_, ?_,
      fun index => ?_, List.forall_mem_cons.mpr ⟨hfirst.flip, hown⟩⟩
    · rw [flatMap_cons, hread, take_append_drop]
    · rw [flatMap_cons, flatMap_cons, hparams]
      rfl
    · rw [infos, infos, hinfos]
      rfl

/-- The expression finds its entries between those of the turns before and after it. -/
theorem formPathExprResponse_turn (hlength : turn.listed.length = turn.read.length)
    (front later : List GroupGetEntry) :
    formPathExprResponse (front ++ (turn.read ++ later)) turn.pathExpr (turn.info front.length) =
      turn.result := by
  unfold formPathExprResponse Turn.info Turn.result
  unfold Turn.listed at hlength
  cases houtcome : turn.outcome with
  | error e => rfl
  | ok vectors =>
    obtain ⟨params, groupIds⟩ := vectors
    rw [houtcome] at hlength
    dsimp only at hlength ⊢
    split
    · rename_i hzero
      rw [hlength, length_eq_zero_iff] at hzero
      rw [hzero]
      rfl
    · rw [drop_left, hlength, take_left]

theorem responses_eq {pathExprs : List Str}
    (h : Resolves S P W V fuel rq pathExprs a turns b)
    (hlength : ∀ turn ∈ turns, turn.listed.length = turn.read.length ∧
      turn.params.length = turn.read.length) (front : List GroupGetEntry) :
    List.zipWith (formPathExprResponse (front ++ turns.flatMap Turn.read)) pathExprs
      (infos front.length turns) = turns.map Turn.result := by
  induction h generalizing front with
  | nil => rfl
  | @cons pathExpr pathExprs a b c outcome read turns hresolve _ ih =>
    obtain ⟨hlisted, hparams⟩ := hlength _ mem_cons_self
    have hrest := ih (fun turn' hturn' => hlength turn' (mem_cons_of_mem _ hturn'))
      (front ++ read)
    rw [length_append, append_assoc, ← hparams] at hrest
    rw [infos, zipWith_cons_cons, flatMap_cons, hrest, map_cons,
      ← formPathExprResponse_turn hlisted front (turns.flatMap Turn.read)]

/-- What is known of a turn. -/
structure RunTurn (S : DmTree) (P : PermissionTable) (W : World) (V : ValueRules N) (fuel : Nat)
    (rq : Request) (turn : Turn) : Prop where
  groups : ∀ gge ∈ turn.params, ∀ group, gge.groupId = some group → group < maxVendorParamGroups
  lengths : ∀ params groupIds, turn.outcome = .ok (params, groupIds) →
    params.length = groupIds.length
  short : ∀ p ∈ turn.listed, p.length ≤ maxDmPath - 1
  clear_iff : (∃ vectors, turn.outcome = .ok vectors) →
    (ClearTurn S P W V rq turn ↔ turn.listed.Nodup ∧ ∀ path ∈ turn.listed, '.' ∈ path ∨ path = [])

theorem RunTurn.paths (h : RunTurn S P W V fuel rq turn) :
    turn.params.map GroupGetEntry.path = turn.listed := by
  unfold Turn.params Turn.listed
  cases houtcome : turn.outcome with
  | error e => rfl
  | ok vectors =>
    have hlen := h.lengths vectors.1 vectors.2 houtcome
    dsimp only
    rw [newEntries, map_map]
    exact map_fst_zip (Nat.le_of_eq hlen)

/-- The assertion about the lengths of the vectors does not fail. -/
theorem expandGetPathExpression_run (h : RunTurn S P W V fuel rq turn)
    (hresolve : resolveIntoVectors S P W V fuel rq turn.pathExpr a = some (.ok turn.outcome, b))
    (ggv : List GroupGetEntry) :
    expandGetPathExpression S P W V fuel rq turn.pathExpr ggv a =
      some (.ok (turn.info ggv.length, ggv ++ turn.params), b) := by
  unfold Turn.info Turn.params
  have hlen := h.lengths
  cases houtcome : turn.outcome with
  | error e =>
    rw [houtcome] at hresolve
    refine (bind_run hresolve).trans ?_
    rw [append_nil]
    rfl
  | ok vectors =>
    obtain ⟨params, groupIds⟩ := vectors
    rw [houtcome] at hresolve
    refine (bind_run hresolve).trans ?_
    dsimp only
    split
    · rename_i hnil
      subst hnil
      rw [newEntries, zip_nil_left, map_nil, append_nil]
      rfl
    · have hadd : addParams ggv params groupIds b =
          some (.ok (ggv ++ newEntries params groupIds), b) := by
        have hrequire : (Prog.require (params.length = groupIds.length) : Op Unit) b =
            some (.ok (), b) := if_pos (decide_eq_true (hlen _ _ houtcome))
        exact (bind_run hrequire).trans rfl
      exact (bind_run hadd).trans rfl

theorem expandExpressions_run {pathExprs : List Str}
    (h : Resolves S P W V fuel rq pathExprs a turns b)
    (hturns : ∀ turn ∈ turns, RunTurn S P W V fuel rq turn) (ggv : List GroupGetEntry) :
    expandExpressions S P W V fuel rq pathExprs ggv a =
      some (.ok (infos ggv.length turns, ggv ++ turns.flatMap Turn.params), b) := by
  induction h generalizing ggv with
  | nil =>
    rw [flatMap_nil, append_nil]
    rfl
  | @cons pathExpr pathExprs a b c outcome read turns hresolve _ ih =>
    have hfirst := expandGetPathExpression_run (hturns _ mem_cons_self) hresolve ggv
    have hrest := ih (fun turn hturn => hturns turn (mem_cons_of_mem _ hturn))
      (ggv ++ Turn.params ⟨pathExpr, a, outcome, read⟩)
    refine (bind_run hfirst).trans ((bind_run hrest).trans ?_)
    rw [length_append, append_assoc]
    rfl

variable (hS : SchemaOk maxDmInstanceOrder S)

include hS

theorem resolves_turns (hinside : GroupsInside S) (hwalks : answersPartial rq.op = true)
    (hwants : rq.wantsPaths = true ∧ rq.wantsGroups = true) {pathExprs : List Str}
    (h : Resolves S P W V fuel rq pathExprs a turns b) (hok : StateOk S a) :
    ∀ turn ∈ turns, RunTurn S P W V fuel rq turn := by
  induction h with
  | nil => exact nofun
  | @cons pathExpr pathExprs a b c outcome read turns hresolve _ ih =>
    have hok' : StateOk S b := (resolveIntoVectors_quiet hS hresolve).ok hok
    refine List.forall_mem_cons.mpr ⟨?_, ih hok'⟩
    cases outcome with
    | error e => exact ⟨nofun, nofun, nofun, fun ⟨_, h⟩ => by cases h⟩
    | ok vectors =>
      obtain ⟨params, groupIds⟩ := vectors
      have hmatch := vectors_match hS hwants hresolve
      refine ⟨fun gge hgge group hgroup => ?_, ?_, vectors_short hS hwalks hok hresolve,
        fun _ => vectors_clear_iff hS hwalks hok hresolve read⟩
      swap
      · rintro _ _ ⟨⟩
        exact hmatch.length_eq
      obtain ⟨⟨p, groupId⟩, hzip, rfl⟩ := List.mem_map.mp hgge
      obtain ⟨node, inst, isQualified, -, rfl⟩ := forall₂_zip hmatch hzip
      exact groupOf_inside hinside hgroup

omit hS in
theorem RunTurn.read_paths (h : RunTurn S P W V fuel rq turn)
    (hown : List.Forall₂ (ReadsOwn S W b) turn.params turn.read) :
    turn.read.map GroupGetEntry.path = turn.listed := (own_reads hown).1.trans h.paths

omit hS in
theorem RunTurn.answers_iff (h : RunTurn S P W V fuel rq turn)
    (hown : List.Forall₂ (ReadsOwn S W b) turn.params turn.read) :
    Answers turn turn.result ↔ (turn.Answered → ClearTurn S P W V rq turn) := by
  have hpaths := h.read_paths hown
  have hshort : ∀ gge ∈ turn.read, gge.path.length ≤ maxDmPath - 1 := fun gge hgge =>
    h.short _ (hpaths ▸ mem_map_of_mem hgge)
  rw [answers_result_iff (own_reads hown).2 hshort, hpaths]
  refine forall_congr' fun hanswered => ?_
  have hobjects : (∀ gge ∈ turn.read, '.' ∈ gge.path ∨ gge.path = []) ↔
      ∀ path ∈ turn.listed, '.' ∈ path ∨ path = [] := by
    rw [← hpaths, forall_mem_map]
  rw [hobjects, h.clear_iff hanswered.1]

end Run

section Request

variable {N : Type} {rs : List Registration} (hrs : ∀ r ∈ rs, WithinArrays r)
  (hinside : GroupsInside (registerAll initialTree rs)) {P : PermissionTable} {W : World}
  {V : ValueRules N} {fuel maxDepth : Nat} {role : CombinedRole} {pathExprs : List Str}
  {a b a' : State} (hok : StateOk (registerAll initialTree rs) a)

include hrs hinside hok

/-- The handler answers when the resolver comes back from every expression and the parameters
come back from being read. -/
theorem handleGet_answers
    (hresolves : Resolves (registerAll initialTree rs) P W V fuel (getExprRequest maxDepth role)
      pathExprs a turns b)
    (hread : groupGetValues (registerAll initialTree rs) W (turns.flatMap Turn.params) b =
      some (.ok ggv, a')) :
    ∃ resp, handleGet (registerAll initialTree rs) P W V fuel maxDepth role pathExprs a =
      some (.ok resp, a') := by
  have hS := registered_ok hrs
  have hturns := resolves_turns hS hinside rfl ⟨rfl, rfl⟩ hresolves hok
  have hexpand := expandExpressions_run hresolves hturns []
  unfold handleGet
  split
  · rename_i hnil
    subst hnil
    cases hresolves
    have hnone : groupGetValues (registerAll initialTree rs) W [] a = some (.ok [], a) := rfl
    rw [flatMap_nil, hnone] at hread
    cases hread
    exact ⟨[], rfl⟩
  · exact ⟨_, (bind_run hexpand).trans ((bind_run hread).trans rfl)⟩

/-- The turns of an answered request, and the result of each of them. -/
theorem handleGet_turns {resp : List RequestedPathResult}
    (hrun : handleGet (registerAll initialTree rs) P W V fuel maxDepth role pathExprs a =
      some (.ok resp, a')) :
    ∃ b turns, TurnsOf (registerAll initialTree rs) P W V fuel (getExprRequest maxDepth role)
        pathExprs a b a' turns ∧
      (∀ turn ∈ turns, RunTurn (registerAll initialTree rs) P W V fuel
        (getExprRequest maxDepth role) turn) ∧
      resp = turns.map Turn.result := by
  have hS := registered_ok hrs
  unfold handleGet at hrun
  split at hrun
  · rename_i hnil
    cases hrun
    subst hnil
    exact ⟨a, [], ⟨.nil, rfl, nofun⟩, nofun, rfl⟩
  · obtain ⟨expanded, b, hexpand, hrest⟩ := bind_ok hrun
    obtain ⟨ggv, a₂, hread, hpure⟩ := bind_ok hrest
    cases hpure
    obtain ⟨turns₀, hresolves₀, rfl⟩ := expandExpressions_turns hexpand
    rw [nil_append] at hread
    have hturns₀ := resolves_turns hS hinside rfl ⟨rfl, rfl⟩ hresolves₀ hok
    have hgroups : ∀ gge ∈ turns₀.flatMap Turn.params, ∀ group, gge.groupId = some group →
        group < maxVendorParamGroups := by
      intro gge hgge
      obtain ⟨turn, hturn, hmem⟩ := List.mem_flatMap.mp hgge
      exact (hturns₀ turn hturn).groups gge hmem
    have hown := ((groupGetValues_own hS hgroups b).of_run hread).1 _ rfl
    obtain ⟨turns, hresolves, hggv, hparams, hinfos, hown⟩ := resolves_read hresolves₀ hown
    have hturns := resolves_turns hS hinside rfl ⟨rfl, rfl⟩ hresolves hok
    refine ⟨b, turns, ⟨hresolves, by rw [hparams, hggv]; exact hread, hown⟩, hturns, ?_⟩
    have hlength : ∀ turn ∈ turns, turn.listed.length = turn.read.length ∧
        turn.params.length = turn.read.length := by
      intro turn hturn
      rw [← (hturns turn hturn).read_paths (hown turn hturn), length_map]
      exact ⟨rfl, (hown turn hturn).length_eq⟩
    have hresp := responses_eq hresolves hlength []
    rw [nil_append, hggv, hinfos] at hresp
    exact hresp

end Request

/-- A request is answered when its expressions and parameters come back, with results that are
right exactly when every expression whose parameters can all be read is clear. -/
theorem answers_right_iff {N : Type} (rs : List Registration) (hrs : ∀ r ∈ rs, WithinArrays r)
    (hinside : GroupsInside (registerAll initialTree rs)) (P : PermissionTable) (W : World)
    (V : ValueRules N) (fuel maxDepth : Nat) (role : CombinedRole) (pathExprs : List Str)
    (a a' : State) (hok : StateOk (registerAll initialTree rs) a) :
    (∀ turns b ggv, Resolves (registerAll initialTree rs) P W V fuel (getExprRequest maxDepth role)
        pathExprs a turns b →
      groupGetValues (registerAll initialTree rs) W (turns.flatMap Turn.params) b =
        some (.ok ggv, a') →
      ∃ resp, handleGet (registerAll initialTree rs) P W V fuel maxDepth role pathExprs a =
        some (.ok resp, a')) ∧
    ∀ resp, handleGet (registerAll initialTree rs) P W V fuel maxDepth role pathExprs a =
        some (.ok resp, a') →
      ∃ b turns, TurnsOf (registerAll initialTree rs) P W V fuel (getExprRequest maxDepth role)
          pathExprs a b a' turns ∧
        (List.Forall₂ Answers turns resp ↔ ∀ turn ∈ turns, turn.Answered →
          ClearTurn (registerAll initialTree rs) P W V (getExprRequest maxDepth role) turn) := by
  refine ⟨fun turns b ggv => handleGet_answers hrs hinside hok, fun resp hrun => ?_⟩
  obtain ⟨b, turns, hof, hturns, rfl⟩ := handleGet_turns hrs hinside hok hrun
  refine ⟨b, turns, hof, ?_⟩
  rw [forall₂_map_right_iff, forall₂_same]
  exact forall₂_congr fun turn hturn => (hturns turn hturn).answers_iff (hof.own turn hturn)

/-- A Get by the role that may read everything, without a limit of depth. -/
def getAll (rs : List Registration) (pathExprs : List Str) : Op (List RequestedPathResult) :=
  handleGet (registerAll initialTree rs) readers readyWorld wholeNumbers 1 0 ⟨0, 1⟩ pathExprs

/-- A partial path and an expression that is not in the schema. -/
def nestedExprs : List Str := ["Device.A.".toList, "Device.Z".toList]

def nestedResults : List RequestedPathResult :=
  [⟨"Device.A.".toList, none, [⟨"Device.A.1.B.4.".toList, [⟨"P".toList, some []⟩]⟩]⟩,
    ⟨"Device.Z".toList, some .invalidPath, []⟩]

theorem groupsInside_nested : GroupsInside (registerAll initialTree nestedTables) := by
  unfold GroupsInside
  decide

theorem answers_right_nested :
    let S := registerAll initialTree nestedTables
    let a' := (getAll nestedTables nestedExprs).after nestedInstances
    ∃ b turns, TurnsOf S readers readyWorld wholeNumbers 1 (getExprRequest 0 ⟨0, 1⟩) nestedExprs
        nestedInstances b a' turns ∧
      (List.Forall₂ Answers turns nestedResults ↔ ∀ turn ∈ turns, turn.Answered →
        ClearTurn S readers readyWorld wholeNumbers (getExprRequest 0 ⟨0, 1⟩) turn) := by
  intro S a'
  refine (answers_right_iff nestedTables nestedTables_within groupsInside_nested readers readyWorld
    wholeNumbers 1 0 ⟨0, 1⟩ nestedExprs nestedInstances a' nestedInstances_ok).2 nestedResults ?_
  exact Prog.run_eq (by decide +kernel)

/-- Two references lead to one object. -/
def twiceExpr : Str := "Device.A.*.Ref+.".toList

def twiceResults : List ResolvedPathResult :=
  [⟨"Device.A.1.".toList, [⟨"Ref".toList, some "Device.A.1".toList⟩,
    ⟨"Ref".toList, some "Device.A.1".toList⟩]⟩]

/-- The parameter of the object is reported once for each reference. -/
theorem reference_reported_twice :
    let a := referenceState "Device.A.1".toList
    (getAll referenceTable [twiceExpr]).result a = some (.ok [⟨twiceExpr, none, twiceResults⟩]) ∧
      ∀ turn, ¬ Answers turn ⟨twiceExpr, none, twiceResults⟩ := by
  intro a
  refine ⟨by decide +kernel, fun turn h => ?_⟩
  generalize hresult : (⟨twiceExpr, none, twiceResults⟩ : RequestedPathResult) = result at h
  have herr := congrArg RequestedPathResult.errCode hresult
  have hresults := congrArg RequestedPathResult.resolvedPathResults hresult
  cases h with
  | unresolved _ => cases herr
  | unread _ _ _ => cases herr
  | values _ hreports =>
    obtain rfl : twiceResults = _ := hresults
    have hmem : ("Device.A.1.Ref".toList, some "Device.A.1".toList) ∈ reported twiceResults := by
      decide
    obtain ⟨gge, hgge, hpath⟩ := List.mem_map.mp (hreports.only _ hmem)
    have honce := hreports.once gge hgge
    rw [hpath] at honce
    revert honce
    decide

end GetResponses
