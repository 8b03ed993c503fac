import SdtTr369.FuelPrograms
import SdtTr369.ResolverFrames

/-!
# The fuel of a resolution

The operators of an expression as programs that go on with a text put in their
own place, and what of the resolver uses up fuel: nothing but the resolution of
references, within the expression and within search keys. More fuel does not
change a resolution that has finished.
-/

namespace ResolverFuel

open UspTypes Schema SchemaInvariant DecimalText PathCodec EffectProgram Agent InstVector
open DataModel DataModelRead ExprVector PathResolver ResolverFrames

/-! ## The parts of the resolver -/

section Parts

variable {N : Type} (S : DmTree) (P : PermissionTable) (W : World) (V : ValueRules N)

/-- How the value of a reference is resolved. -/
def followed (fuel : Nat) (rq : Request) (value : Str) : ROp (List Str) :=
  inOwnVector (resolvePath S P W V fuel (referenceRequest rq) value)

def expansion (fuel : Nat) (rq : Request) (resolved unresolved : Str) : ROp Unit :=
  expandPath S P W rq V (followed S P W V fuel rq) fuel (finishPath S P W rq) resolved unresolved

/-- How an operator goes on with a text that it puts in its own place. -/
def goOn (fuel : Nat) (rq : Request) (unresolved text : Str) : ROp Unit := do
  expandPath.checkLength text
  expansion S P W V fuel rq text unresolved

def numbered (resolved : Str) (n : Int) : Str := (resolved ++ intDigits n).take (maxDmPath - 1)

/-- The first half of `ResolveReferenceFollow`: the value, if the resolution goes on. -/
def referenceValue (rq : Request) (resolved : Str) : ROp (Option Str) :=
  if rq.op = .getBulkData then failWith .invalidPathSyntax
  else match getNodeFromPath S resolved with
    | none => failWith .invalidPath
    | some (node, _) =>
      if getPermissions P node rq.role .get = false then giveUp rq (pure none) .permissionDenied
      else do
        let value ← onAgent (getParameterValue S W resolved maxDmPath {})
        if value = [] then giveUp rq (pure none) .objectDoesNotExist
        else pure (some (value.takeWhile (· ≠ ',')))

/-- The checks of the object that a reference leads to. -/
def objectAt (rq : Request) (path : Str) : ROp (Option Str) := do
  let properties ← onAgent (getPathProperties S P W path none)
  if properties.flags.isObject = false ∨ properties.flags.isObjectInstance = false then
    failWith .invalidPathSyntax
  else if properties.flags.instanceNumbersExist = false then
    giveUp rq (pure none) .objectDoesNotExist
  else pure (some path)

/-- The object that the value leads to. -/
def objectOfValue (nested : Str → ROp (List Str)) (rq : Request) : Option Str → ROp (Option Str)
  | none => pure none
  | some value =>
    if value.any isOperator then do
      match ← nested value with
      | [] => giveUp rq (pure none) .objectDoesNotExist
      | first :: _ => objectAt S P W rq (first.take (maxDmPath - 1))
    else objectAt S P W rq value

def expandAt (expand : Str → ROp Unit) : Option Str → ROp Unit
  | none => pure ()
  | some text => expand text

/-- The keys of a search that go through references, for all instances. -/
def referencedKeys (resolved : Str) (iv : List Int) (keys : List ExprComp) : List KeyParam :=
  iv.flatMap fun n => keys.map fun ec => ⟨keyPath resolved n ec, true⟩

/-- The round of `ResolveUniqueKey` for one instance. -/
def tryInstance (fuel : Nat) (rq : Request) (resolved unresolved : Str)
    (sps : SearchParam × SearchParam) (entry : Int × Nat) : ROp Unit := do
  let isMatch ← doUniqueKeysMatch V entry.2 sps.1
  let isRefMatch ← doUniqueKeysMatch V entry.2 sps.2
  if isMatch && isRefMatch then goOn S P W V fuel rq unresolved (numbered resolved entry.1)
  else pure ()

end Parts

variable (path : Str)

section Equations

variable {N : Type} {S : DmTree} {P : PermissionTable} {W : World} {V : ValueRules N}
  {rq : Request} {resolved unresolved : Str}

theorem expansion_nil (fuel : Nat) :
    expansion S P W V fuel rq resolved [] = finishPath S P W rq resolved := by
  rw [expansion, expandPath]

theorem expansion_wildcard (fuel : Nat) :
    expansion S P W V fuel rq resolved ('*' :: unresolved) =
      expandWildcard S W resolved (goOn S P W V fuel rq unresolved) := by
  rw [expansion, expandPath, if_pos rfl]
  rfl

theorem expansion_reference (fuel : Nat) :
    expansion S P W V fuel rq resolved ('+' :: unresolved) =
      resolveReferenceFollow S P W rq (followed S P W V fuel rq) resolved
        (goOn S P W V fuel rq unresolved) := by
  rw [expansion, expandPath, if_neg (by decide), if_pos rfl]
  rfl

theorem expansion_unclosed (fuel : Nat) (h : unresolved.dropWhile (· ≠ ']') = []) :
    expansion S P W V fuel rq resolved ('[' :: unresolved) = failWith .invalidPathSyntax := by
  rw [expansion, expandPath, if_neg (by decide), if_neg (by decide), if_pos rfl]
  split
  · rfl
  · rename_i hrest
    rw [h] at hrest
    cases hrest

theorem expansion_search (fuel : Nat) {c : Char} {rest : Str}
    (h : unresolved.dropWhile (· ≠ ']') = c :: rest) :
    expansion S P W V fuel rq resolved ('[' :: unresolved) =
      onAgent (getInstances S W resolved) >>= fun iv =>
        if iv = [] then pure ()
        else prepareSearch S P W rq fuel resolved iv (unresolved.takeWhile (· ≠ ']')) >>= fun sps =>
          .forEach iv.zipIdx (tryInstance S P W V fuel rq resolved rest sps) := by
  rw [expansion, expandPath, if_neg (by decide), if_neg (by decide), if_pos rfl]
  split
  · rename_i hrest
    rw [h] at hrest
    cases hrest
  · rename_i hrest
    rw [h] at hrest
    cases hrest
    rfl

theorem expansion_literal (fuel : Nat) {c : Char} (hstar : c ≠ '*') (hplus : c ≠ '+')
    (hopen : c ≠ '[') :
    expansion S P W V fuel rq resolved (c :: unresolved) = (do
      expandPath.checkLength resolved
      expansion S P W V fuel rq (resolved ++ [c]) unresolved) := by
  rw [expansion, expandPath, if_neg hstar, if_neg hplus, if_neg hopen]
  rfl

theorem giveUp_bind {α β : Type} (rest : ROp α) (e : Err) (f : α → ROp β) :
    (giveUp rq rest e >>= f) = giveUp rq (rest >>= f) e := by
  unfold giveUp
  split <;> rfl

theorem followObject_eq (expand : Str → ROp Unit) :
    followObject S P W rq path expand = objectAt S P W rq path >>= expandAt expand := by
  rw [followObject, objectAt, bind_assoc]
  congr 1
  funext properties
  split
  · rfl
  · split
    · rw [giveUp_bind]
      rfl
    · rfl

/-- `ResolveReferenceFollow` in three steps. -/
theorem resolveReferenceFollow_eq (nested : Str → ROp (List Str)) (expand : Str → ROp Unit) :
    resolveReferenceFollow S P W rq nested resolved expand =
      referenceValue S P W rq resolved >>= fun value =>
        objectOfValue S P W nested rq value >>= expandAt expand := by
  unfold resolveReferenceFollow referenceValue
  by_cases hbulk : rq.op = .getBulkData
  · rw [if_pos hbulk, if_pos hbulk]
    rfl
  · rw [if_neg hbulk, if_neg hbulk]
    cases hget : getNodeFromPath S resolved with
    | none => rfl
    | some found =>
      obtain ⟨node, inst⟩ := found
      dsimp only
      by_cases hperm : getPermissions P node rq.role .get = false
      · rw [if_pos hperm, if_pos hperm, giveUp_bind]
        rfl
      · rw [if_neg hperm, if_neg hperm, bind_assoc]
        congr 1
        funext value
        by_cases hempty : value = []
        · rw [if_pos hempty, if_pos hempty, giveUp_bind]
          rfl
        · rw [if_neg hempty, if_neg hempty, pure_bind, objectOfValue]
          split
          · rw [bind_assoc]
            congr 1
            funext paths
            cases paths with
            | nil =>
              dsimp only
              rw [giveUp_bind]
              rfl
            | cons first paths => exact followObject_eq _ _
          · exact followObject_eq _ _

end Equations

/-! ## What cannot run out of fuel -/

/-- No fuel is used up, wherever the program begins. -/
def Finishes {α : Type} (m : ROp α) : Prop := ∀ s, Finished .unfinished m s

section Finishes

variable {α β : Type} {N : Type} {S : DmTree} {P : PermissionTable} {W : World}
  {V : ValueRules N} {rq : Request}

theorem finishes_pure (a : α) : Finishes (pure a : ROp α) := by
  intro s s' h
  cases h

theorem finishes_halt : Finishes (.halt : ROp α) := by
  intro s s' h
  cases h

theorem finishes_read (f : RState → α) : Finishes (.read f) := by
  intro s s' h
  cases h

theorem finishes_update (f : RState → RState) : Finishes (.update f) := by
  intro s s' h
  cases h

theorem finishes_require (c : Bool) : Finishes (.require c) := by
  intro s s' h
  unfold Prog.require at h
  split at h <;> cases h

theorem finishes_failWith (e : Err) : Finishes (failWith e : ROp α) := by
  intro s s' h
  cases h

theorem finishes_onAgent (m : Op α) : Finishes (onAgent m) := by
  intro s s' h
  unfold onAgent at h
  cases hm : m s.agent with
  | none =>
    rw [hm] at h
    cases h
  | some r =>
    obtain ⟨r, a⟩ := r
    rw [hm] at h
    cases r <;> cases h

theorem finishes_bind {m : ROp α} {f : α → ROp β} (hm : Finishes m) (hf : ∀ a, Finishes (f a)) :
    Finishes (m >>= f) :=
  fun s => finished_bind.mpr ⟨hm s, fun a s' _ => hf a s'⟩

theorem finishes_forEach {xs : List β} {f : β → ROp Unit} (hf : ∀ x, Finishes (f x)) :
    Finishes (.forEach xs f) :=
  fun _ => finished_forEach.mpr fun _ x _ _ s' _ => hf x s'

theorem finishes_giveUp {rest : ROp α} (h : Finishes rest) (e : Err) :
    Finishes (giveUp rq rest e) := by
  unfold giveUp
  split
  · exact h
  · exact finishes_failWith e

theorem finishes_ignore (m : Op α) : Finishes (.ignore (onAgent m)) := by
  intro s
  refine finished_of_wp ?_
  rw [wp_ignore]
  exact wp_true _ s

theorem finishes_checkLength (text : Str) : Finishes (expandPath.checkLength text) := by
  unfold expandPath.checkLength
  split
  · exact finishes_failWith _
  · exact finishes_pure _

variable (role : Option CombinedRole) (params : List KeyParam) (sp : SearchParam)

theorem finishes_getInstancePaths : Finishes (getInstancePaths S P W path role) := by
  have hadd : ∀ p, Finishes (addIfNotExist p) := fun p => finishes_update _
  have hlist : ∀ node inst, Finishes (do
      let iv ← onAgent (instVectorGetInstances S W node inst)
      .forEach iv fun n => addIfNotExist (appendName path (intDigits n))) := fun _ _ =>
    finishes_bind (finishes_onAgent _) fun iv => finishes_forEach fun n => hadd _
  unfold getInstancePaths
  split
  · exact finishes_failWith _
  · split
    · exact finishes_pure _
    · split
      · exact hadd _
      · split
        · exact finishes_bind (hadd _) fun _ => hlist _ _
        · exact hlist _ _

theorem finishes_addObjectInstance (oi : DmInstances) :
    Finishes (addObjectInstanceIfPermitted S P role oi) := by
  unfold addObjectInstanceIfPermitted
  split
  · exact finishes_pure _
  · split
    · exact finishes_pure _
    · split
      · exact finishes_halt
      · exact finishes_pure _
      · exact finishes_update _

theorem finishes_getAllInstancePaths : Finishes (getAllInstancePaths S P W path role) := by
  have hlist : ∀ (top : NodeId) (select : DmInstances → Bool), Finishes (do
      onAgent (refreshInstVector S W top)
      let div ← .read fun s => s.agent.instVector top
      .forEach (div.filter select) (addObjectInstanceIfPermitted S P role)) := fun _ _ =>
    finishes_bind (finishes_onAgent _) fun _ => finishes_bind (finishes_read _) fun _ =>
      finishes_forEach fun _ => finishes_addObjectInstance _ _
  have hrecursive : ∀ fuel node inst,
      Finishes (getAllInstancePathsRecursive S P W role fuel node inst) := by
    intro fuel
    induction fuel with
    | zero => exact fun _ _ => finishes_pure _
    | succ fuel ih =>
      intro node inst
      unfold getAllInstancePathsRecursive
      split
      · exact finishes_bind (finishes_onAgent _) fun _ => hlist _ _
      · exact finishes_forEach fun child => ih child inst
  unfold getAllInstancePaths
  split
  · exact finishes_failWith _
  · refine finishes_bind (finishes_require _) fun _ => ?_
    split
    · exact finishes_bind (finishes_require _) fun _ =>
        finishes_bind (finishes_onAgent _) fun _ => hlist _ _
    · exact hrecursive _ _ _

theorem finishes_addPathFound : Finishes (addPathFound S P W rq path) := by
  refine finishes_bind (finishes_onAgent _) fun properties => ?_
  split
  · exact finishes_failWith _
  · split
    · exact finishes_pure _
    · split
      · exact finishes_bind (finishes_require _) fun _ => finishes_getInstancePaths _ _
      · split
        · split
          · exact finishes_getAllInstancePaths _ _
          · exact finishes_getInstancePaths _ _
        · exact finishes_update _

theorem finishes_getTableParams {walk : Str → NodeId → DmInstances → ROp Unit}
    (hwalk : ∀ path node inst, Finishes (walk path node inst)) (depth : Nat) (path : Str)
    (node : NodeId) (inst : DmInstances) :
    Finishes (getTableParams S W walk depth path node inst) := by
  unfold getTableParams
  split
  · exact finishes_pure _
  · exact finishes_bind (finishes_onAgent _) fun _ => finishes_forEach fun _ => hwalk _ _ _

theorem finishes_getChildParams (depth : Nat) (path : Str) (node : NodeId) (inst : DmInstances) :
    Finishes (getChildParams S P W rq depth path node inst) := by
  induction depth generalizing path node inst with
  | zero => exact finishes_pure _
  | succ depth ih =>
    refine finishes_forEach fun child => ?_
    dsimp only
    split
    · exact ih _ _ _
    · exact finishes_getTableParams ih _ _ _ _
    · split
      · exact finishes_failWith _
      · split
        · exact finishes_update _
        · exact finishes_pure _

theorem finishes_resolvePartialPath : Finishes (resolvePartialPath S P W rq path) := by
  unfold resolvePartialPath
  split
  · exact finishes_failWith _
  · split
    · exact finishes_failWith _
    · refine finishes_bind (finishes_onAgent _) fun b => ?_
      split
      · split
        · exact finishes_getChildParams _ _ _ _
        · exact finishes_getTableParams (finishes_getChildParams _) _ _ _ _
      · exact finishes_pure _

theorem finishes_finishPath : Finishes (finishPath S P W rq path) := by
  have hlifecycle : ∀ p, Finishes (refreshLifecycleInstances S W p) := by
    intro p
    unfold refreshLifecycleInstances
    split
    · exact finishes_pure _
    · split
      · exact finishes_ignore _
      · exact finishes_pure _
  unfold finishPath
  split
  · exact finishes_addPathFound _
  · cases rq.op with
    | get | subsValChange | getBulkData | subsOper | subsEvent =>
      exact finishes_resolvePartialPath _
    | subsAdd | subsDel => exact finishes_bind (finishes_addPathFound _) fun _ => hlifecycle _
    | add | del | set | instances | any | strictRef | forgivingRef => exact finishes_addPathFound _
    | oper | event => exact finishes_halt

theorem finishes_referenceValue (resolved : Str) :
    Finishes (referenceValue S P W rq resolved) := by
  unfold referenceValue
  split
  · exact finishes_failWith _
  · split
    · exact finishes_failWith _
    · split
      · exact finishes_giveUp (finishes_pure _) _
      · refine finishes_bind (finishes_onAgent _) fun value => ?_
        split
        · exact finishes_giveUp (finishes_pure _) _
        · exact finishes_pure _

theorem finishes_objectAt : Finishes (objectAt S P W rq path) := by
  refine finishes_bind (finishes_onAgent _) fun properties => ?_
  split
  · exact finishes_failWith _
  · split
    · exact finishes_giveUp (finishes_pure _) _
    · exact finishes_pure _

theorem finishes_checkPathPermission : Finishes (checkPathPermission S P W rq path) := by
  refine finishes_bind (finishes_onAgent _) fun properties => ?_
  split
  · exact finishes_failWith _
  · dsimp only
    split
    · exact finishes_pure _
    · exact finishes_giveUp (finishes_pure _) _

theorem finishes_getGroupIds (object : Str) (keys : List ExprComp) :
    Finishes (getGroupIdForUniqueKeys S P W rq object keys) := by
  induction keys with
  | nil => exact finishes_pure _
  | cons ec rest ih =>
    exact finishes_bind (finishes_checkPathPermission _) fun _ =>
      finishes_bind ih fun _ => finishes_pure _

theorem finishes_expandNonReferencedKeys (object : Str) (iv : List Int) (keys : List ExprComp) :
    Finishes (expandNonReferencedKeys S P W rq object iv keys) :=
  finishes_bind (finishes_getGroupIds _ _) fun _ => finishes_pure _

theorem finishes_groupReferencedParameters :
    Finishes (groupReferencedParameters S P W rq params) := by
  induction params with
  | nil => exact finishes_pure _
  | cons kp rest ih =>
    unfold groupReferencedParameters
    split
    · exact finishes_bind ih fun _ => finishes_pure _
    · refine finishes_bind (finishes_checkPathPermission _) fun access =>
        finishes_bind ih fun r => ?_
      split
      · exact finishes_pure _
      · exact finishes_pure _

theorem finishes_dereferenceParams (ggv : List GroupGetEntry) :
    Finishes (dereferenceParams params ggv) := by
  induction params generalizing ggv with
  | nil => exact finishes_pure _
  | cons kp rest ih =>
    unfold dereferenceParams
    split
    · exact finishes_bind (ih _) fun _ => finishes_pure _
    · split
      · exact finishes_halt
      · split
        · exact finishes_halt
        · exact finishes_failWith _
        · exact finishes_bind (ih _) fun _ => finishes_pure _

theorem finishes_addReferencedKeys : Finishes (addReferencedKeys S P W rq params sp) := by
  induction params generalizing sp with
  | nil => exact finishes_pure _
  | cons kp rest ih =>
    unfold addReferencedKeys
    split
    · exact ih _
    · exact finishes_bind (finishes_checkPathPermission _) fun _ => ih _

theorem finishes_getKeyValues : Finishes (getKeyValues S W sp) :=
  finishes_bind (finishes_onAgent _) fun _ => finishes_pure _

theorem finishes_doKeysMatch (index : Nat) (keys : List ExprComp) :
    Finishes (doKeysMatch V sp index keys) := by
  induction keys generalizing index with
  | nil => exact finishes_pure _
  | cons ec rest ih =>
    unfold doKeysMatch
    split
    · exact finishes_halt
    · exact finishes_pure _
    · split
      · split
        · exact finishes_halt
        · exact finishes_failWith _
        · split
          · exact finishes_halt
          · exact finishes_failWith _
          · exact finishes_pure _
          · exact ih _
      · exact finishes_halt

end Finishes

/-! ## More fuel -/

section Steady

variable {N : Type} {limit : Nat} {S : DmTree} {P : PermissionTable} {W : World}
  {V : ValueRules N}

theorem continues_relation (S : DmTree) :
    ResolverRelation S (fun m m' => Continues Fault.unfinished m m') where
  reads _ := Continues.refl _
  bind := continues_bind

theorem continues_inOwnVector {m m' : ROp Unit} (h : Continues Fault.unfinished m m') :
    Continues Fault.unfinished (inOwnVector m) (inOwnVector m') := by
  intro s hs
  unfold inOwnVector
  rw [h]
  intro s' hm
  refine hs { s with agent := s'.agent } ?_
  rw [inOwnVector, hm]
  rfl

theorem resolveIntermediateReferences_steady (rq : Request) (params : List KeyParam) :
    Steady .unfinished fun rounds => resolveIntermediateReferences S P W rq rounds params := by
  intro n n' hle
  induction n generalizing n' params with
  | zero => exact fun s h => absurd rfl (h s)
  | succ n ih =>
    obtain ⟨k, rfl⟩ := Nat.exists_eq_add_of_lt hle
    refine continues_bind (Continues.refl _) fun grouped => ?_
    split
    · exact Continues.refl _
    · exact continues_bind (Continues.refl _) fun ggv => continues_bind (Continues.refl _)
        fun params' => ih params' (n + k) (Nat.le_add_right n k)

variable (hS : SchemaOk limit S)

include hS

theorem resolvePath_steady (rq : Request) (path : Str) :
    Steady .unfinished fun fuel => resolvePath S P W V fuel rq path := by
  intro n n' hle
  induction n generalizing n' rq path with
  | zero => exact fun s h => absurd rfl (h s)
  | succ n ih =>
    obtain ⟨k, rfl⟩ := Nat.exists_eq_add_of_lt hle
    have hle' : n ≤ n + k := Nat.le_add_right n k
    refine continues_bind (Continues.refl _) fun _ => ?_
    split
    · exact Continues.refl _
    · exact expandPath_related hS (continues_relation S)
        (fun value => continues_inOwnVector (ih _ _ _ hle'))
        (fun params => resolveIntermediateReferences_steady rq params n (n + k) hle')
        (fun _ => Continues.refl _) _ _

theorem followed_steady (rq : Request) (value : Str) :
    Steady .unfinished fun fuel => followed S P W V fuel rq value :=
  fun n n' hle => continues_inOwnVector (resolvePath_steady hS _ _ n n' hle)

theorem expansion_steady (rq : Request) (resolved unresolved : Str) :
    Steady .unfinished fun fuel => expansion S P W V fuel rq resolved unresolved :=
  fun n n' hle => expandPath_related hS (continues_relation S)
    (fun value => followed_steady hS rq value n n' hle)
    (fun params => resolveIntermediateReferences_steady rq params n n' hle)
    (fun _ => Continues.refl _) resolved unresolved

theorem goOn_steady (rq : Request) (unresolved text : Str) :
    Steady .unfinished fun fuel => goOn S P W V fuel rq unresolved text :=
  steady_bind (steady_const _) fun _ => expansion_steady hS rq text unresolved

theorem tryInstance_steady (rq : Request) (resolved unresolved : Str)
    (sps : SearchParam × SearchParam) (entry : Int × Nat) :
    Steady .unfinished fun fuel => tryInstance S P W V fuel rq resolved unresolved sps entry := by
  refine steady_bind (steady_const _) fun isMatch => steady_bind (steady_const _) fun isRef => ?_
  cases isMatch && isRef with
  | true => exact goOn_steady hS rq unresolved _
  | false => exact steady_const _

theorem objectOfValue_steady (rq : Request) (value : Option Str) :
    Steady .unfinished fun fuel => objectOfValue S P W (followed S P W V fuel rq) rq value := by
  cases value with
  | none => exact steady_const _
  | some value =>
    by_cases hop : value.any isOperator = true
    · simp only [objectOfValue, if_pos hop]
      refine steady_bind (followed_steady hS rq value) fun paths => ?_
      cases paths with
      | nil => exact steady_const _
      | cons first paths => exact steady_const _
    · simp only [objectOfValue, if_neg hop]
      exact steady_const _

theorem expandAt_steady (rq : Request) (unresolved : Str) (object : Option Str) :
    Steady .unfinished fun fuel => expandAt (goOn S P W V fuel rq unresolved) object := by
  cases object with
  | none => exact steady_const _
  | some text => exact goOn_steady hS rq unresolved text

theorem prepareSearch_steady (rq : Request) (resolved : Str) (iv : List Int) (key : Str) :
    Steady .unfinished fun fuel => prepareSearch S P W rq fuel resolved iv key :=
  fun n n' hle => prepareSearch_related hS (continues_relation S)
    (fun params => resolveIntermediateReferences_steady rq params n n' hle) resolved iv key

end Steady

/-! ## The parts of a finished resolution -/

section Inversion

variable {N : Type} {S : DmTree} {P : PermissionTable} {W : World} {V : ValueRules N}
  {rq : Request} {fuel : Nat} {s : RState}

theorem checkLength_ok {text : Str} (h : text.length < maxDmPath - 1) :
    expandPath.checkLength text s = some (.ok (), s) := by
  rw [expandPath.checkLength, if_neg (Nat.not_le_of_lt h)]
  rfl

theorem finished_goOn {unresolved text : Str} :
    Finished .unfinished (goOn S P W V fuel rq unresolved text) s ↔
      (text.length < maxDmPath - 1 →
        Finished .unfinished (expansion S P W V fuel rq text unresolved) s) := by
  rw [goOn, finished_bind]
  constructor
  · rintro ⟨-, hrest⟩ hlen
    exact hrest () s (checkLength_ok hlen)
  · intro h
    refine ⟨finishes_checkLength text s, fun _ s' hrun => ?_⟩
    unfold expandPath.checkLength at hrun
    split at hrun
    · cases hrun
    · rename_i hlen
      cases hrun
      exact h (Nat.lt_of_not_le hlen)

theorem finished_literal {resolved unresolved : Str} {c : Char} (hstar : c ≠ '*')
    (hplus : c ≠ '+') (hopen : c ≠ '[') :
    Finished .unfinished (expansion S P W V fuel rq resolved (c :: unresolved)) s ↔
      (resolved.length < maxDmPath - 1 →
        Finished .unfinished (expansion S P W V fuel rq (resolved ++ [c]) unresolved) s) := by
  rw [expansion_literal fuel hstar hplus hopen, finished_bind]
  constructor
  · rintro ⟨-, hrest⟩ hlen
    exact hrest () s (checkLength_ok hlen)
  · intro h
    refine ⟨finishes_checkLength resolved s, fun _ s' hrun => ?_⟩
    unfold expandPath.checkLength at hrun
    split at hrun
    · cases hrun
    · rename_i hlen
      cases hrun
      exact h (Nat.lt_of_not_le hlen)

theorem finished_inOwnVector {m : ROp Unit} :
    Finished .unfinished (inOwnVector m) s ↔
      Finished .unfinished m { s with sv := [], gv := [] } := by
  constructor
  · intro h s' hm
    refine h { s with agent := s'.agent } ?_
    rw [inOwnVector, hm]
    rfl
  · intro h s' hm
    unfold inOwnVector at hm
    cases hrun : m { s with sv := [], gv := [] } with
    | none =>
      rw [hrun] at hm
      cases hm
    | some r =>
      obtain ⟨r, s₁⟩ := r
      rw [hrun] at hm
      cases r with
      | error e =>
        cases hm
        exact h s₁ hrun
      | ok a => cases hm

/-- A whole resolution and its expansion. -/
theorem finished_resolvePath {path : Str} :
    Finished .unfinished (resolvePath S P W V fuel rq path) s ↔ ∃ k, fuel = k + 1 ∧
      ((!rq.wantsGroups || allowsGroups rq.op) = true → ¬ ['.', '.'] <:+: path →
        Finished .unfinished (expansion S P W V k rq [] (path.take (maxDmPath - 1))) s) := by
  cases fuel with
  | zero =>
    constructor
    · intro h
      exact absurd rfl (h s)
    · rintro ⟨k, hk, -⟩
      cases hk
  | succ k =>
    rw [resolvePath, finished_bind]
    constructor
    · rintro ⟨-, hrest⟩
      refine ⟨k, rfl, fun hgroups hdots => ?_⟩
      have hbody := hrest () s (by rw [Prog.require, if_pos hgroups])
      rw [if_neg hdots] at hbody
      exact hbody
    · rintro ⟨k', hk, h⟩
      cases hk
      refine ⟨finishes_require _ s, fun _ s' hrun => ?_⟩
      unfold Prog.require at hrun
      split at hrun
      · rename_i hgroups
        cases hrun
        split
        · exact finishes_failWith _ s
        · rename_i hdots
          exact h hgroups hdots
      · cases hrun

theorem finished_followed {value : Str} :
    Finished .unfinished (followed S P W V fuel rq value) s ↔ ∃ k, fuel = k + 1 ∧
      (¬ ['.', '.'] <:+: value → Finished .unfinished
        (expansion S P W V k (referenceRequest rq) [] (value.take (maxDmPath - 1)))
        { s with sv := [], gv := [] }) := by
  rw [followed, finished_inOwnVector, finished_resolvePath]
  refine exists_congr fun k => and_congr_right fun _ => ?_
  exact ⟨fun h => h rfl, fun h _ => h⟩

theorem finished_resolveIntermediateReferences {params : List KeyParam} :
    Finished .unfinished (resolveIntermediateReferences S P W rq fuel params) s ↔
      ∃ k, fuel = k + 1 ∧ ∀ grouped s₁ ggv s₂ params' s₃,
        groupReferencedParameters S P W rq params s = some (.ok grouped, s₁) →
        grouped.2.isEmpty = false →
        onAgent (groupGetValues S W grouped.2) s₁ = some (.ok ggv, s₂) →
        dereferenceParams grouped.1 ggv s₂ = some (.ok params', s₃) →
        Finished .unfinished (resolveIntermediateReferences S P W rq k params') s₃ := by
  cases fuel with
  | zero =>
    constructor
    · intro h
      exact absurd rfl (h s)
    · rintro ⟨k, hk, -⟩
      cases hk
  | succ k =>
    rw [resolveIntermediateReferences, finished_bind]
    constructor
    · rintro ⟨-, hrest⟩
      refine ⟨k, rfl, fun grouped s₁ ggv s₂ params' s₃ hgroup hne hvalues hderef => ?_⟩
      have hbody := hrest grouped s₁ hgroup
      rw [if_neg (by simp [hne]), finished_bind] at hbody
      exact (finished_bind.mp (hbody.2 ggv s₂ hvalues)).2 params' s₃ hderef
    · rintro ⟨k', hk, h⟩
      cases hk
      refine ⟨finishes_groupReferencedParameters params s, fun grouped s₁ hgroup => ?_⟩
      split
      · exact finishes_pure _ s₁
      · rename_i hne
        refine finished_bind.mpr ⟨finishes_onAgent _ s₁, fun ggv s₂ hvalues => ?_⟩
        refine finished_bind.mpr ⟨finishes_dereferenceParams _ _ s₂, fun params' s₃ hderef => ?_⟩
        exact h grouped s₁ ggv s₂ params' s₃ hgroup (by simpa using hne) hvalues hderef

/-- The only part of the preparation of a search that uses fuel. -/
theorem finished_prepareSearch {resolved key : Str} {iv : List Int} :
    Finished .unfinished (prepareSearch S P W rq fuel resolved iv key) s ↔
      ∀ ec comps keys ref refs sp s₁, key.length ≤ maxDmPath - 1 →
        splitExpressions key = .ok (ec :: comps) →
        splitReferenceKeys (ec :: comps) = .ok (keys, ref :: refs) →
        expandNonReferencedKeys S P W rq resolved iv keys s = some (.ok sp, s₁) →
        Finished .unfinished (resolveIntermediateReferences S P W rq fuel
          (referencedKeys resolved iv (ref :: refs))) s₁ := by
  have hrefs : ∀ (refKeys : List ExprComp) (s₁ : RState),
      Finished .unfinished (resolveReferencedKeys S P W rq fuel resolved iv refKeys) s₁ ↔
        (refKeys ≠ [] → Finished .unfinished (resolveIntermediateReferences S P W rq fuel
          (referencedKeys resolved iv refKeys)) s₁) := by
    intro refKeys s₁
    unfold resolveReferencedKeys
    split
    · rename_i hnil
      exact ⟨fun _ h => absurd hnil h, fun _ => finishes_pure _ s₁⟩
    · rename_i hne
      rw [finished_bind]
      exact ⟨fun h _ => h.1, fun h => ⟨h hne, fun _ s₂ _ => finishes_addReferencedKeys _ _ s₂⟩⟩
  unfold prepareSearch
  by_cases hlong : maxDmPath - 1 < key.length
  · rw [if_pos hlong]
    refine ⟨fun _ ec comps keys ref refs sp s₁ hlen => ?_, fun _ => finishes_failWith _ s⟩
    exact absurd hlen (Nat.not_le_of_lt hlong)
  · rw [if_neg hlong]
    cases hsplit : splitExpressions key with
    | error e =>
      refine ⟨fun _ ec comps keys ref refs sp s₁ _ h => ?_, fun _ => finishes_failWith _ s⟩
      cases h
    | ok exprs =>
      cases exprs with
      | nil =>
        refine ⟨fun _ ec comps keys ref refs sp s₁ _ h => ?_, fun _ => finishes_failWith _ s⟩
        cases h
      | cons ec comps =>
        dsimp only
        cases hkeys : splitReferenceKeys (ec :: comps) with
        | error e =>
          refine ⟨fun _ ec' comps' keys ref refs sp s₁ _ h h' => ?_, fun _ => finishes_failWith _ s⟩
          cases h
          rw [hkeys] at h'
          cases h'
        | ok split =>
          obtain ⟨keys, refKeys⟩ := split
          dsimp only
          rw [finished_bind]
          constructor
          · rintro ⟨-, hrest⟩ ec' comps' keys' ref refs sp s₁ - h h' hrun
            cases h
            rw [hkeys] at h'
            cases h'
            exact (hrefs _ s₁).mp (finished_bind.mp (hrest sp s₁ hrun)).1 (by simp)
          · intro h
            refine ⟨finishes_expandNonReferencedKeys _ _ _ s, fun sp s₁ hrun => ?_⟩
            refine finished_bind.mpr ⟨(hrefs _ s₁).mpr fun hne => ?_, fun refSp s₂ _ => ?_⟩
            · obtain ⟨ref, refs, rfl⟩ := List.exists_cons_of_ne_nil hne
              exact h ec comps keys ref refs sp s₁ (Nat.le_of_not_lt hlong) rfl hkeys hrun
            · exact finishes_bind (finishes_getKeyValues _) (fun _ =>
                finishes_bind (finishes_getKeyValues _) fun _ => finishes_pure _) s₂

end Inversion

end ResolverFuel
