import SdtTr369.ResolvedVectors
import SdtTr369.SubsRetry

/-!
# Polling for changed values

A ValueChange subscription is polled: the parameters that its path expressions
resolve to are read and compared with what the last poll has read. The search
for the earlier value of a parameter begins where the one before has ended.
-/

namespace ValueChange

open UspTypes Schema SchemaInvariant PathRoundTrip EffectProgram List
open Agent DataModelRead ExprVector HeldInstances
open PathResolver ResolverFrames ResolvedEnds ResolvedPaths FoundPaths ResolvedVectors
open SubsRetry (Subs Controller NotifyContent QueuedNotify findControllerByInstance
  findEndpointIdByInstance)

/-! ## Resolving the expressions of a subscription -/

/-- `DEVICE_CONTROLLER_GetCombinedRole`. -/
def getCombinedRole (controllers : List (Option Controller)) (roles : Nat → CombinedRole)
    (contInstance : Nat) : Option CombinedRole :=
  match findControllerByInstance controllers contInstance with
  | none => none
  | some cont => if cont.enable = false then none else some (roles cont.inst)

/-- The arguments with which `ResolveAllPathExpressions` calls the resolver. -/
def subsRequest (op : ResolveOp) (wantsPaths wantsGroups : Bool) (role : CombinedRole) : Request :=
  { op, depth := fullDepth, role := some role, wantsPaths, wantsGroups }

section Poll

variable {N : Type} (S : DmTree) (P : PermissionTable) (W : World) (V : ValueRules N) (fuel : Nat)

/-- An expression of which the error is logged and ignored. -/
def resolveExpression (rq : Request) (expr : Str) : ROp Unit := do
  match ← (Prog.attempt (resolveDevicePath S P W rq V fuel expr) : ROp (Except Fault Unit)) with
  | .error .unfinished => .fail .unfinished
  | _ => pure ()

/-- `ResolveAllPathExpressions`. -/
def resolveAllPathExpressions (pathExpressions : List Str) (request : CombinedRole → Request)
    (role : Option CombinedRole) : ROp Unit :=
  match role with
  | none => pure ()
  | some role => .forEach pathExpressions (resolveExpression S P W V fuel (request role))

/-- `GROUP_GET_VECTOR_ConvertToKeyValueVector`: errors become empty values. -/
def keyValuePair (gge : GroupGetEntry) : Str × Str :=
  match gge.outcome with
  | some (.ok value) => (gge.path, value)
  | _ => (gge.path, [])

/-- `GetAllPathExpressionParameterValues`. -/
def getAllPathExpressionParameterValues (pathExpressions : List Str)
    (role : Option CombinedRole) : ROp (List (Str × Str)) := do
  resolveAllPathExpressions S P W V fuel pathExpressions (subsRequest .subsValChange true true) role
  let params ← .read RState.sv
  let groupIds ← .read RState.gv
  .require (params.length = groupIds.length)
  let entries := (params.zip groupIds).map fun (path, groupId) => { path, groupId }
  let ggv ← onAgent (groupGetValues S W entries)
  pure (ggv.map keyValuePair)

end Poll

/-! ## Comparing the values -/

/-- `KV_VECTOR_FindKey`. -/
def findKey (kvv : List (Str × Str)) (key : Str) (startIndex : Nat) : Option Nat :=
  let startIndex := if kvv.length < startIndex then 0 else startIndex
  match (kvv.drop startIndex).findIdx? fun pair => pair.1 = key with
  | some i => some (startIndex + i)
  | none => (kvv.take startIndex).findIdx? fun pair => pair.1 = key

/-- `SendValueChangeNotify`; the clock may advance between two messages. -/
def sendValueChangeNotify (H : SubsRetry.Host) (sub : Subs) (path value : Str)
    (s : SubsRetry.State) : SubsRetry.State :=
  let s := SubsRetry.notify H sub path (.valueChange path value) s
  { s with turn := s.turn + 1 }

/-- The loop of `ProcessValueChangeSubscription`. -/
def compareValues (H : SubsRetry.Host) (sub : Subs) (lastValues : List (Str × Str)) :
    Nat → List (Str × Str) → SubsRetry.State → SubsRetry.State
  | _, [], s => s
  | hintIndex, (key, value) :: pairs, s =>
    match findKey lastValues key hintIndex with
    | none => compareValues H sub lastValues hintIndex pairs s
    | some index =>
      let last := (lastValues[index]?.map Prod.snd).getD []
      let s := if last ≠ value then sendValueChangeNotify H sub key value s else s
      compareValues H sub lastValues (index + 1) pairs s

structure PollState where
  agent : State
  lastValues : List (Str × Str)
  retry : SubsRetry.State

/-- `ProcessValueChangeSubscription`. -/
def processValueChangeSubscription {N : Type} (S : DmTree) (P : PermissionTable) (W : World)
    (V : ValueRules N) (fuel : Nat) (H : SubsRetry.Host) (roles : Nat → CombinedRole) (sub : Subs)
    (pathExpressions : List Str) : Prog PollState Fault Unit := fun s =>
  let role := getCombinedRole s.retry.controllers roles sub.contInstance
  (getAllPathExpressionParameterValues S P W V fuel pathExpressions role ⟨s.agent, [], []⟩).map
    fun (outcome, found) => match outcome with
      | .error e => (.error e, { s with agent := found.agent })
      | .ok curValues => (.ok (), ⟨found.agent, curValues,
          compareValues H sub s.lastValues 0 curValues s.retry⟩)

/-! ## What is reported -/

/-- The pair has another value than the pair of its key in the last sample. -/
def differs (lastValues : List (Str × Str)) (pair : Str × Str) : Bool :=
  lastValues.any fun last => last.1 = pair.1 && last.2 ≠ pair.2

/-- The parameter is in both samples, with different values. -/
def Changed (lastValues curValues : List (Str × Str)) (path : Str) : Prop :=
  ∃ last value, (path, last) ∈ lastValues ∧ (path, value) ∈ curValues ∧ last ≠ value

/-- One report with the new value for each parameter that has changed, and none
for any other. -/
def OneForEach (lastValues curValues reports : List (Str × Str)) : Prop :=
  ∀ path, (Changed lastValues curValues path →
      ∃ value, (path, value) ∈ curValues ∧ (reports.filter fun r => r.1 = path) = [(path, value)]) ∧
    (¬ Changed lastValues curValues path → (reports.filter fun r => r.1 = path) = [])

/-- What a queued message reports. -/
def reported (item : QueuedNotify) : Option (Str × Str) :=
  match item.pbuf.content with
  | .valueChange path value => some (path, value)
  | _ => none

section Comparison

variable {lastValues curValues : List (Str × Str)}

variable {kvv : List (Str × Str)} {key : Str} {start : Nat}

theorem findIdx?_key {i : Nat} (h : (kvv.findIdx? fun pair => pair.1 = key) = some i) :
    ∃ value, kvv[i]? = some (key, value) := by
  obtain ⟨hlt, hkey, -⟩ := List.findIdx?_eq_some_iff_getElem.mp h
  refine ⟨kvv[i].2, ?_⟩
  rw [getElem?_eq_getElem hlt, Option.some_inj]
  exact Prod.ext (of_decide_eq_true hkey) rfl

theorem findKey_some {i : Nat} (h : findKey kvv key start = some i) :
    ∃ value, kvv[i]? = some (key, value) := by
  unfold findKey at h
  generalize (if kvv.length < start then 0 else start) = start at h
  dsimp only at h
  split at h
  · rename_i j hj
    cases h
    obtain ⟨value, hv⟩ := findIdx?_key hj
    exact ⟨value, by rw [← hv, getElem?_drop]⟩
  · obtain ⟨value, hv⟩ := findIdx?_key h
    rw [getElem?_take] at hv
    split at hv
    · exact ⟨value, hv⟩
    · cases hv

theorem findKey_none (h : findKey kvv key start = none) : ∀ pair ∈ kvv, pair.1 ≠ key := by
  unfold findKey at h
  generalize (if kvv.length < start then 0 else start) = start at h
  dsimp only at h
  split at h
  · cases h
  · rename_i hdrop
    intro pair hpair
    rw [← take_append_drop start kvv, mem_append] at hpair
    rw [findIdx?_eq_none_iff] at h hdrop
    rcases hpair with hpair | hpair
    · exact of_decide_eq_false (h pair hpair)
    · exact of_decide_eq_false (hdrop pair hpair)

/-- When no parameter is listed twice, the search finds the pair of the parameter. -/
theorem differs_of_findKey (hlast : (lastValues.map Prod.fst).Nodup) (value : Str) {index : Nat}
    (h : findKey lastValues key start = some index) :
    differs lastValues (key, value) = true ↔
      (lastValues[index]?.map Prod.snd).getD [] ≠ value := by
  obtain ⟨last, hindex⟩ := findKey_some h
  rw [hindex, Option.map_some, Option.getD_some, differs, any_eq_true]
  have hmem := mem_of_getElem? hindex
  constructor
  · rintro ⟨⟨key', last'⟩, hmem', hdiff⟩
    simp only [Bool.and_eq_true, decide_eq_true_eq] at hdiff
    have heq := inj_on_of_nodup_map hlast hmem' hmem hdiff.1
    cases heq
    exact hdiff.2
  · intro hne
    exact ⟨_, hmem, by simp [hne]⟩

theorem not_differs_of_findKey {value : Str} (h : findKey lastValues key start = none) :
    differs lastValues (key, value) = false := by
  rw [differs, any_eq_false]
  intro pair hpair hdiff
  simp only [Bool.and_eq_true, decide_eq_true_eq] at hdiff
  exact findKey_none h pair hpair hdiff.1

theorem filter_key_of_nodup {pairs : List (Str × Str)} (hnodup : (pairs.map Prod.fst).Nodup)
    {path value : Str} (hmem : (path, value) ∈ pairs) :
    (pairs.filter fun r => r.1 = path) = [(path, value)] := by
  induction pairs with
  | nil => cases hmem
  | cons pair pairs ih =>
    rw [map_cons, nodup_cons] at hnodup
    rcases List.mem_cons.mp hmem with rfl | hmem
    · rw [filter_cons_of_pos (by simp), List.filter_eq_nil_iff.mpr]
      intro r hr heq
      exact hnodup.1 (List.mem_map.mpr ⟨r, hr, of_decide_eq_true heq⟩)
    · rw [filter_cons_of_neg, ih hnodup.2 hmem]
      intro heq
      exact hnodup.1 (List.mem_map.mpr ⟨_, hmem, (of_decide_eq_true heq).symm⟩)

variable (H : SubsRetry.Host)

theorem sendValueChangeNotify_queued {sub : Subs} (path value : Str) {s : SubsRetry.State}
    {dest : Str} (hdest : findEndpointIdByInstance s.controllers sub.contInstance = some dest) :
    ∃ req expiry, (sendValueChangeNotify H sub path value s).queued =
        s.queued ++ [⟨dest, req.msgId, req, expiry⟩] ∧
      (sendValueChangeNotify H sub path value s).controllers = s.controllers ∧
      req.content = .valueChange path value := by
  obtain ⟨expiry, hqueued, hcontrollers⟩ := SubsRetry.notify_queued H path
    (.valueChange path value) hdest
  exact ⟨_, expiry, hqueued, hcontrollers, rfl⟩

/-- What the loop queues for the controller of the subscription. -/
theorem compareValues_queued (sub : Subs) (hlast : (lastValues.map Prod.fst).Nodup)
    (curValues : List (Str × Str)) (hint : Nat) (s : SubsRetry.State) {dest : Str}
    (hdest : findEndpointIdByInstance s.controllers sub.contInstance = some dest) :
    ∃ items, (compareValues H sub lastValues hint curValues s).queued = s.queued ++ items ∧
      (∀ item ∈ items, item.endpointId = dest) ∧
      items.map reported = (curValues.filter (differs lastValues)).map some := by
  induction curValues generalizing hint s with
  | nil => exact ⟨[], by simp [compareValues], nofun, rfl⟩
  | cons pair pairs ih =>
    obtain ⟨key, value⟩ := pair
    rw [compareValues]
    cases hfind : findKey lastValues key hint with
    | none =>
      obtain ⟨items, hqueued, hto, hreports⟩ := ih hint s hdest
      refine ⟨items, hqueued, hto, ?_⟩
      rw [filter_cons_of_neg (by simp [not_differs_of_findKey hfind]), hreports]
    | some index =>
      dsimp only
      have hdiffers := differs_of_findKey hlast value hfind
      split
      · rename_i hne
        obtain ⟨req, expiry, hsent, hsame, hreq⟩ := sendValueChangeNotify_queued H key value hdest
        rw [← hsame] at hdest
        obtain ⟨items, hqueued, hto, hreports⟩ := ih (index + 1) _ hdest
        refine ⟨⟨dest, req.msgId, req, expiry⟩ :: items, ?_, ?_, ?_⟩
        · rw [hqueued, hsent, append_assoc, singleton_append]
        · intro item hitem
          rcases List.mem_cons.mp hitem with rfl | hitem
          · rfl
          · exact hto item hitem
        · rw [filter_cons_of_pos (hdiffers.mpr hne), map_cons, map_cons, hreports,
            reported, hreq]
      · rename_i heq
        obtain ⟨items, hqueued, hto, hreports⟩ := ih (index + 1) s hdest
        refine ⟨items, hqueued, hto, ?_⟩
        rw [filter_cons_of_neg (fun h => heq (hdiffers.mp h)), hreports]

/-- Nothing goes wrong when no parameter is reported twice. -/
theorem oneForEach_of_nodup
    (hnodup : ((curValues.filter (differs lastValues)).map Prod.fst).Nodup) :
    OneForEach lastValues curValues (curValues.filter (differs lastValues)) := by
  have hchanged : ∀ path, Changed lastValues curValues path ↔
      ∃ value, (path, value) ∈ curValues.filter (differs lastValues) := by
    intro path
    simp only [Changed, mem_filter, differs, any_eq_true, Bool.and_eq_true,
      decide_eq_true_eq, Prod.exists]
    constructor
    · rintro ⟨last, value, hmem, hcur, hne⟩
      exact ⟨value, hcur, path, last, hmem, rfl, hne⟩
    · rintro ⟨value, hcur, _, last, hmem, rfl, hne⟩
      exact ⟨last, value, hmem, hcur, hne⟩
  intro path
  constructor
  · intro hpath
    obtain ⟨value, hvalue⟩ := (hchanged path).mp hpath
    exact ⟨value, mem_of_mem_filter hvalue, filter_key_of_nodup hnodup hvalue⟩
  · intro hpath
    rw [filter_eq_nil_iff]
    rintro ⟨path', value⟩ hvalue heq
    obtain rfl := of_decide_eq_true heq
    exact hpath ((hchanged path').mpr ⟨value, hvalue⟩)

end Comparison

/-! ## The sample -/

variable {pathExpressions : List Str} {values : List (Str × Str)} {found : RState}

section Sample

variable {N : Type} {S : DmTree} {P : PermissionTable} {W : World} {V : ValueRules N} {fuel : Nat}

/-- An expression passes its ends, whatever its outcome. -/
theorem resolveExpression_passes (hS : SchemaOk maxDmInstanceOrder S) {rq : Request} {expr : Str}
    {s s' : RState} {r : Except Fault Unit}
    (hrun : resolveExpression S P W V fuel rq expr s = some (r, s')) :
    ∃ r', Visits S P W rq s (ComesTo S P W V rq expr s) r' s' := by
  cases hresolve : resolveDevicePath S P W rq V fuel expr s with
  | none =>
    have hnone : (Prog.attempt (resolveDevicePath S P W rq V fuel expr) :
        ROp (Except Fault Unit)) s = none := by
      rw [Prog.attempt, hresolve]
      rfl
    rw [resolveExpression, bind_none hnone] at hrun
    cases hrun
  | some resolved =>
    obtain ⟨r', t⟩ := resolved
    have ht : s' = t := by
      rw [resolveExpression, bind_run (attempt_run hresolve)] at hrun
      split at hrun
      · cases hrun
        rfl
      · cases hrun
        rfl
    subst ht
    exact ⟨r', resolveDevicePath_visits hS hresolve⟩

/-- The expressions pass their ends one after the other. -/
theorem resolveAll_passes (hS : SchemaOk maxDmInstanceOrder S) {rq : Request}
    (pathExpressions : List Str) {s s' : RState}
    (hrun : Prog.forEach pathExpressions (resolveExpression S P W V fuel rq) s =
      some (.ok (), s')) :
    ∃ ends, Passes S P W rq False s ends s' ∧
      ∀ y ∈ ends, ∃ expr ∈ pathExpressions, ∃ t, ComesTo S P W V rq expr t y := by
  induction pathExpressions generalizing s with
  | nil =>
    cases hrun
    exact ⟨[], .reads ((readsOnly_frame S).refl _), nofun⟩
  | cons expr exprs ih =>
    obtain ⟨⟨⟩, t, hfirst, hrest⟩ := bind_ok hrun
    obtain ⟨r', ends, hpass, hends, -⟩ := resolveExpression_passes hS hfirst
    obtain ⟨later, hpass', hlater⟩ := ih hrest
    refine ⟨ends ++ later, hpass.trans False.elim hpass', fun y hy => ?_⟩
    rcases List.mem_append.mp hy with hy | hy
    · exact ⟨expr, mem_cons_self, s, hends y hy⟩
    · obtain ⟨expr', hexpr, t', hcomes⟩ := hlater y hy
      exact ⟨expr', mem_cons_of_mem _ hexpr, t', hcomes⟩

variable (ggv : List GroupGetEntry) (a : State) {role : CombinedRole}

/-- Reading the values changes nothing but the outcomes. -/
theorem getUngrouped_paths :
    Wp True (getUngrouped S W ggv) a
      (fun got _ => got.map GroupGetEntry.path = ggv.map GroupGetEntry.path)
      (fun _ _ => True) := by
  induction ggv generalizing a with
  | nil => exact rfl
  | cons gge rest ih =>
    have hrest : ∀ got : GroupGetEntry, got.path = gge.path → ∀ a',
        Wp True (getUngrouped S W rest) a'
          (fun rest' _ => (got :: rest').map GroupGetEntry.path =
            (gge :: rest).map GroupGetEntry.path) fun _ _ => True := by
      intro got hgot a'
      refine (ih a').mono (fun rest' _ hrest => ?_) fun _ _ h => h
      rw [map_cons, map_cons, hgot, hrest]
    rw [getUngrouped]
    split
    · simp only [wp_bind, wp_attempt, wp_pure]
      exact (wp_true _ a).mono (fun _ a' _ => hrest _ rfl a') fun _ a' _ => hrest _ rfl a'
    · simp only [wp_bind, wp_pure]
      exact hrest gge rfl a

theorem fillGroup_path (group : Nat) (answer : Except Err (Str → Option Str))
    (gge : GroupGetEntry) : (fillGroup group answer gge).path = gge.path := by
  unfold fillGroup
  split
  · rfl
  · split
    · rfl
    · split <;> rfl

theorem getGroups_paths (groups : List Nat) (ggv : List GroupGetEntry) (a : State) :
    Wp True (getGroups W groups ggv) a
      (fun got _ => got.map GroupGetEntry.path = ggv.map GroupGetEntry.path)
      (fun _ _ => True) := by
  induction groups generalizing ggv a with
  | nil => exact rfl
  | cons group groups ih =>
    simp only [getGroups, getParameterGroup, wp_bind]
    split
    · simp only [wp_bind, wp_call, wp_pure]
      refine (ih _ _).mono (fun got _ h => ?_) fun _ _ h => h
      rw [h, map_map]
      exact map_congr_left fun gge _ => fillGroup_path _ _ gge
    · exact ih ggv a

theorem groupGetValues_paths :
    Wp True (groupGetValues S W ggv) a
      (fun got _ => got.map GroupGetEntry.path = ggv.map GroupGetEntry.path)
      (fun _ _ => True) := by
  simp only [groupGetValues, wp_bind]
  refine (getUngrouped_paths ggv a).mono (fun got a' hgot => ?_) fun _ _ h => h
  exact (getGroups_paths _ got a').mono (fun _ _ h => h.trans hgot) fun _ _ h => h

theorem keyValuePair_fst (gge : GroupGetEntry) : (keyValuePair gge).1 = gge.path := by
  unfold keyValuePair
  split <;> rfl

/-- The keys of the sample are the paths resolved. -/
theorem sample_paths {a : State}
    (hrun : getAllPathExpressionParameterValues S P W V fuel pathExpressions (some role)
      ⟨a, [], []⟩ = some (.ok values, found)) :
    ∃ resolved, Prog.forEach pathExpressions (resolveExpression S P W V fuel
        (subsRequest .subsValChange true true role)) ⟨a, [], []⟩ = some (.ok (), resolved) ∧
      values.map Prod.fst = resolved.sv := by
  obtain ⟨⟨⟩, s, hresolve, hrest⟩ := bind_ok hrun
  refine ⟨s, hresolve, ?_⟩
  have hspec : Wp True (do
      let params ← .read RState.sv
      let groupIds ← .read RState.gv
      .require (params.length = groupIds.length)
      let entries := (params.zip groupIds).map fun (path, groupId) => { path, groupId }
      let ggv ← onAgent (groupGetValues S W entries)
      pure (ggv.map keyValuePair)) s (fun values _ => values.map Prod.fst = s.sv)
      fun _ _ => True := by
    simp only [wp_bind, wp_read, wp_require]
    split
    · rename_i hlen
      rw [wp_onAgent]
      refine (groupGetValues_paths _ s.agent).mono (fun ggv _ h => ?_) fun _ _ _ => trivial
      have hkeys : (ggv.map keyValuePair).map Prod.fst = ggv.map GroupGetEntry.path := by
        rw [map_map]
        exact map_congr_left fun gge _ => keyValuePair_fst gge
      rw [wp_pure, hkeys, h, map_map]
      exact map_fst_zip (Nat.le_of_eq (of_decide_eq_true hlen))
    · trivial
  exact (hspec.of_run hrest).1 values rfl

/-- The ends that a poll passes. When they are apart, no parameter is listed twice. -/
theorem sample_passes (hS : SchemaOk maxDmInstanceOrder S) {a : State} (hok : StateOk S a)
    (hrun : getAllPathExpressionParameterValues S P W V fuel pathExpressions (some role)
      ⟨a, [], []⟩ = some (.ok values, found)) :
    ∃ ends resolved, Passes S P W (subsRequest .subsValChange true true role) False ⟨a, [], []⟩
        ends resolved ∧
      (∀ y ∈ ends, ∃ expr ∈ pathExpressions, ∃ t,
        ComesTo S P W V (subsRequest .subsValChange true true role) expr t y) ∧
      (EndsApart S P W (subsRequest .subsValChange true true role) [] resolved.agent ends →
        (values.map Prod.fst).Nodup) := by
  obtain ⟨resolved, hresolve, hpaths⟩ := sample_paths hrun
  obtain ⟨ends, hpass, hends⟩ := resolveAll_passes hS pathExpressions hresolve
  refine ⟨ends, resolved, hpass, hends, fun hapart => ?_⟩
  rw [hpaths]
  exact passes_nodup hS hpass hok (Quiet.refl S _) nodup_nil hapart

end Sample

/-! ## A poll -/

theorem getCombinedRole_eq_none {controllers : List (Option Controller)}
    {roles : Nat → CombinedRole} {contInstance : Nat}
    (h : findEndpointIdByInstance controllers contInstance = none) :
    getCombinedRole controllers roles contInstance = none := by
  unfold findEndpointIdByInstance at h
  unfold getCombinedRole
  cases hcont : findControllerByInstance controllers contInstance with
  | none => rfl
  | some cont =>
    rw [hcont] at h
    dsimp only at h ⊢
    by_cases henable : cont.enable = false
    · exact if_pos henable
    · rw [if_neg henable] at h
      cases h

theorem sample_of_no_role {N : Type} {S : DmTree} {P : PermissionTable} {W : World}
    {V : ValueRules N} {fuel : Nat} {a : State}
    (h : getAllPathExpressionParameterValues S P W V fuel pathExpressions none ⟨a, [], []⟩ =
      some (.ok values, found)) : values = [] := by
  cases h
  rfl

/-- The role 0 may be told of every change. -/
def watchers : PermissionTable := fun _ role permit => role = 0 && permit = .subsValChange

/-- Every controller has this role. -/
def watcherRoles : Nat → CombinedRole := fun _ => ⟨0, 0⟩

def changeSubs : Subs := ⟨1, 1, "changes".toList, true, .valueChange, 0⟩

/-- The last poll has found another value. -/
def changedState : PollState :=
  ⟨nestedInstances, [("Device.A.1.B.4.P".toList, "old".toList)],
    SubsRetry.initialState [some ⟨1, true, "self::controller".toList, 5, 2000⟩]⟩

def quietClock : SubsRetry.Host :=
  ⟨fun _ _ => 0, fun _ => "2024-01-01T00:00:00Z".toList, fun _ _ _ _ _ => 5, fun _ => (0, 0)⟩

/-- A poll of the nested tables. -/
def pollNested (pathExpressions : List Str) : Prog PollState Fault Unit :=
  processValueChangeSubscription (registerAll initialTree nestedTables) watchers readyWorld
    wholeNumbers 1 quietClock watcherRoles changeSubs pathExpressions

end ValueChange
