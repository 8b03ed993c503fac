import SdtTr369.QuietReads
import SdtTr369.PathResolver

/-!
# What a resolution does to its state

All that a resolution does between the paths that it adds is to read the data
model. A frame that allows quiet changes of the agent is therefore kept by the
expansion of an expression as soon as it is kept at the ends of the expression
(`expandPath_within`).
-/

namespace ResolverFrames

open UspTypes Schema SchemaInvariant DecimalText PathCodec EffectProgram Agent
open DataModel DataModelRead ExprVector HeldInstances QuietReads PathResolver

structure ResolverFrame (S : DmTree) (R : RState → RState → Prop) : Prop extends IsFrame R where
  quiet : ∀ s a, Quiet S s.agent a → R s { s with agent := a }

/-- The vectors may change in any way. -/
def AgentQuiet (S : DmTree) (s s' : RState) : Prop := Quiet S s.agent s'.agent

theorem agentQuiet_frame (S : DmTree) : ResolverFrame S (AgentQuiet S) where
  refl s := Quiet.refl S s.agent
  trans := Quiet.trans
  quiet _ _ h := h

/-- The vectors do not change. -/
def ReadsOnly (S : DmTree) (s s' : RState) : Prop :=
  ∃ a, Quiet S s.agent a ∧ s' = { s with agent := a }

theorem readsOnly_frame (S : DmTree) : ResolverFrame S (ReadsOnly S) where
  refl s := ⟨s.agent, Quiet.refl S s.agent, rfl⟩
  trans := by
    rintro s t u ⟨a, ha, rfl⟩ ⟨b, hb, rfl⟩
    exact ⟨b, ha.trans hb, rfl⟩
  quiet _ a h := ⟨a, h, rfl⟩

/-- A relation between programs that is kept by putting programs one behind the
other, and that every program has to itself which only reads. -/
structure ResolverRelation (S : DmTree) (rel : {α : Type} → ROp α → ROp α → Prop) : Prop where
  reads : ∀ {α : Type} {m : ROp α}, Within (ReadsOnly S) m → rel m m
  bind : ∀ {α β : Type} {m m' : ROp α} {f f' : α → ROp β}, rel m m' →
    (∀ a, rel (f a) (f' a)) → rel (m >>= f) (m' >>= f')

/-- To be within a frame is such a relation, which does not look at its second side. -/
theorem ResolverFrame.relation {S : DmTree} {R : RState → RState → Prop}
    (hR : ResolverFrame S R) : ResolverRelation S (fun m _ => Within R m) where
  reads h := h.mono fun s s' hs => by
    obtain ⟨a, ha, rfl⟩ := hs
    exact hR.quiet s a ha
  bind := within_bind hR.toIsFrame

@[simp] theorem wp_onAgent {α : Type} {T : Prop} (m : Op α) (s : RState)
    (Q : α → RState → Prop) (E : Fault → RState → Prop) :
    Wp T (onAgent m) s Q E ↔ Wp T m s.agent (fun x a => Q x { s with agent := a })
      (fun e a => E (.code e) { s with agent := a }) := by
  unfold Wp onAgent
  cases h : m s.agent with
  | none => rfl
  | some r =>
    obtain ⟨r, a⟩ := r
    cases r <;> rfl

section Parts

variable {α : Type} {S : DmTree} {R : RState → RState → Prop} (hR : ResolverFrame S R)

include hR

theorem onAgent_within {m : Op α} (hm : Within (Quiet S) m) : Within R (onAgent m) := by
  intro s
  rw [Keeps, wp_onAgent]
  exact Wp.mono (hm s.agent) (fun _ a h => hR.quiet s a h) fun _ a h => hR.quiet s a h

theorem inOwnVector_within {m : ROp Unit} (hm : Within (AgentQuiet S) m) :
    Within R (inOwnVector m) := by
  intro s
  have h := hm { s with sv := [], gv := [] }
  unfold Keeps Wp at *
  unfold inOwnVector
  cases hrun : m { s with sv := [], gv := [] } with
  | none => trivial
  | some r =>
    obtain ⟨r, s'⟩ := r
    rw [hrun] at h
    cases r with
    | error e => exact hR.quiet s s'.agent h
    | ok b => exact hR.quiet s s'.agent h

theorem failWith_within (e : Err) : Within R (failWith e : ROp α) := within_fail hR.toIsFrame _

theorem giveUp_within {rq : Request} {rest : ROp α} (hrest : Within R rest) (e : Err) :
    Within R (giveUp rq rest e) := by
  unfold giveUp
  split
  · exact hrest
  · exact failWith_within hR e

end Parts

section Expansion

variable {N : Type} {limit : Nat} {S : DmTree} {P : PermissionTable} {W : World} {rq : Request}
  {V : ValueRules N} {R : RState → RState → Prop} (hS : SchemaOk limit S) (hR : ResolverFrame S R)

include hS hR

theorem checkPathPermission_within (path : Str) :
    Within R (checkPathPermission S P W rq path) := by
  refine within_bind hR.toIsFrame (onAgent_within hR (getPathProperties_within hS _ _ _))
    fun properties => ?_
  split
  · exact failWith_within hR _
  · simp only
    split
    · exact within_pure hR.toIsFrame _
    · exact giveUp_within hR (within_pure hR.toIsFrame _) _

theorem getGroupIdForUniqueKeys_within (object : Str) (keys : List ExprComp) :
    Within R (getGroupIdForUniqueKeys S P W rq object keys) := by
  induction keys with
  | nil => exact within_pure hR.toIsFrame _
  | cons ec rest ih =>
    exact within_bind hR.toIsFrame (checkPathPermission_within hS hR _) fun _ =>
      within_bind hR.toIsFrame ih fun _ => within_pure hR.toIsFrame _

theorem groupReferencedParameters_within (params : List KeyParam) :
    Within R (groupReferencedParameters S P W rq params) := by
  induction params with
  | nil => exact within_pure hR.toIsFrame _
  | cons kp rest ih =>
    unfold groupReferencedParameters
    split
    · exact within_bind hR.toIsFrame ih fun _ => within_pure hR.toIsFrame _
    · refine within_bind hR.toIsFrame (checkPathPermission_within hS hR _) fun access =>
        within_bind hR.toIsFrame ih fun r => ?_
      split
      · exact within_pure hR.toIsFrame _
      · exact within_pure hR.toIsFrame _

omit hS in
theorem dereferenceParams_within (params : List KeyParam) (ggv : List GroupGetEntry) :
    Within R (dereferenceParams params ggv) := by
  induction params generalizing ggv with
  | nil => exact within_pure hR.toIsFrame _
  | cons kp rest ih =>
    unfold dereferenceParams
    split
    · exact within_bind hR.toIsFrame (ih _) fun _ => within_pure hR.toIsFrame _
    · split
      · exact within_halt R
      · split
        · exact within_halt R
        · exact failWith_within hR _
        · exact within_bind hR.toIsFrame (ih _) fun _ => within_pure hR.toIsFrame _

theorem resolveIntermediateReferences_within (rounds : Nat) (params : List KeyParam) :
    Within R (resolveIntermediateReferences S P W rq rounds params) := by
  induction rounds generalizing params with
  | zero => exact within_fail hR.toIsFrame _
  | succ rounds ih =>
    refine within_bind hR.toIsFrame (groupReferencedParameters_within hS hR _) fun grouped => ?_
    split
    · exact within_pure hR.toIsFrame _
    · exact within_bind hR.toIsFrame (onAgent_within hR (groupGetValues_within hS _)) fun ggv =>
        within_bind hR.toIsFrame (dereferenceParams_within hR _ _) fun _ => ih _

theorem addReferencedKeys_within (params : List KeyParam) (sp : SearchParam) :
    Within R (addReferencedKeys S P W rq params sp) := by
  induction params generalizing sp with
  | nil => exact within_pure hR.toIsFrame _
  | cons kp rest ih =>
    unfold addReferencedKeys
    split
    · exact ih _
    · exact within_bind hR.toIsFrame (checkPathPermission_within hS hR _) fun _ => ih _

omit hS in
theorem doKeysMatch_within (sp : SearchParam) (index : Nat) (keys : List ExprComp) :
    Within R (doKeysMatch V sp index keys) := by
  induction keys generalizing index with
  | nil => exact within_pure hR.toIsFrame _
  | cons ec rest ih =>
    unfold doKeysMatch
    split
    · exact within_halt R
    · exact within_pure hR.toIsFrame _
    · split
      · split
        · exact within_halt R
        · exact failWith_within hR _
        · split
          · exact within_halt R
          · exact failWith_within hR _
          · exact within_pure hR.toIsFrame _
          · exact ih _
      · exact within_halt R

end Expansion

theorem rest_shorter {p : Char → Bool} {text rest : Str} {c : Char}
    (h : text.dropWhile p = c :: rest) : rest.length < text.length := by
  have hsuffix := (List.dropWhile_suffix p (l := text)).length_le
  rw [h] at hsuffix
  exact hsuffix

section Relation

variable {N : Type} {limit : Nat} {S : DmTree} {P : PermissionTable} {W : World} {rq : Request}
  {V : ValueRules N} {rel : {α : Type} → ROp α → ROp α → Prop}
  (hS : SchemaOk limit S) (hrel : ResolverRelation S rel)

include hrel

theorem related_pure {α : Type} (a : α) : rel (pure a : ROp α) (pure a) :=
  hrel.reads (within_pure (readsOnly_frame S).toIsFrame a)

theorem related_failWith {α : Type} (e : Err) : rel (failWith e : ROp α) (failWith e) :=
  hrel.reads (failWith_within (readsOnly_frame S) e)

theorem related_giveUp (e : Err) : rel (giveUp rq (pure ()) e) (giveUp rq (pure ()) e) :=
  hrel.reads (giveUp_within (readsOnly_frame S)
    (within_pure (readsOnly_frame S).toIsFrame ()) e)

theorem related_forEach {β : Type} (xs : List β) {f f' : β → ROp Unit}
    (h : ∀ x ∈ xs, rel (f x) (f' x)) : rel (.forEach xs f) (.forEach xs f') := by
  induction xs with
  | nil => exact related_pure hrel ()
  | cons x xs ih =>
    exact hrel.bind (h x List.mem_cons_self) fun _ =>
      ih fun y hy => h y (List.mem_cons_of_mem _ hy)

include hS

theorem expandWildcard_related (resolved : Str) {expand expand' : Str → ROp Unit}
    (hexpand : ∀ text, rel (expand text) (expand' text)) :
    rel (expandWildcard S W resolved expand) (expandWildcard S W resolved expand') := by
  have hR := readsOnly_frame S
  refine hrel.bind (hrel.reads (onAgent_within hR (getInstances_within hS _))) fun iv => ?_
  split
  · exact related_pure hrel _
  · split
    · exact related_failWith hrel _
    · exact related_forEach hrel iv fun n _ => hexpand _

theorem followObject_related (dereferenced : Str) {expand expand' : Str → ROp Unit}
    (hexpand : ∀ text, rel (expand text) (expand' text)) :
    rel (followObject S P W rq dereferenced expand)
      (followObject S P W rq dereferenced expand') := by
  have hR := readsOnly_frame S
  refine hrel.bind (hrel.reads (onAgent_within hR (getPathProperties_within hS _ _ _)))
    fun properties => ?_
  split
  · exact related_failWith hrel _
  · split
    · exact related_giveUp hrel _
    · exact hexpand _

theorem resolveReferenceFollow_related {nested nested' : Str → ROp (List Str)}
    (hnested : ∀ value, rel (nested value) (nested' value)) (resolved : Str)
    {expand expand' : Str → ROp Unit} (hexpand : ∀ text, rel (expand text) (expand' text)) :
    rel (resolveReferenceFollow S P W rq nested resolved expand)
      (resolveReferenceFollow S P W rq nested' resolved expand') := by
  have hR := readsOnly_frame S
  unfold resolveReferenceFollow
  split
  · exact related_failWith hrel _
  · split
    · exact related_failWith hrel _
    · split
      · exact related_giveUp hrel _
      · refine hrel.bind (hrel.reads (onAgent_within hR (getParameterValue_within hS _ _ _)))
          fun value => ?_
        split
        · exact related_giveUp hrel _
        · simp only
          split
          · refine hrel.bind (hnested _) fun paths => ?_
            split
            · exact related_giveUp hrel _
            · exact followObject_related hS hrel _ hexpand
          · exact followObject_related hS hrel _ hexpand

theorem prepareSearch_related {rounds rounds' : Nat}
    (hkeys : ∀ params, rel (resolveIntermediateReferences S P W rq rounds params)
      (resolveIntermediateReferences S P W rq rounds' params))
    (resolved : Str) (iv : List Int) (key : Str) :
    rel (prepareSearch S P W rq rounds resolved iv key)
      (prepareSearch S P W rq rounds' resolved iv key) := by
  have hR := readsOnly_frame S
  have hvalues : ∀ sp, rel (getKeyValues S W sp) (getKeyValues S W sp) := fun sp =>
    hrel.bind (hrel.reads (onAgent_within hR (groupGetValues_within hS _))) fun _ =>
      related_pure hrel _
  have hrefs : ∀ refKeys, rel (resolveReferencedKeys S P W rq rounds resolved iv refKeys)
      (resolveReferencedKeys S P W rq rounds' resolved iv refKeys) := by
    intro refKeys
    unfold resolveReferencedKeys
    split
    · exact related_pure hrel _
    · exact hrel.bind (hkeys _) fun _ => hrel.reads (addReferencedKeys_within hS hR _ _)
  unfold prepareSearch
  split
  · exact related_failWith hrel _
  · split
    · exact related_failWith hrel _
    · exact related_failWith hrel _
    · split
      · exact related_failWith hrel _
      · refine hrel.bind (hrel.reads ?_) fun sp => hrel.bind (hrefs _) fun refSp =>
          hrel.bind (hvalues sp) fun _ => hrel.bind (hvalues refSp) fun _ => related_pure hrel _
        exact within_bind hR.toIsFrame (getGroupIdForUniqueKeys_within hS hR _ _) fun _ =>
          within_pure hR.toIsFrame _

theorem resolveUniqueKey_related {rounds rounds' : Nat}
    (hkeys : ∀ params, rel (resolveIntermediateReferences S P W rq rounds params)
      (resolveIntermediateReferences S P W rq rounds' params))
    (resolved key : Str) {expand expand' : Str → ROp Unit}
    (hexpand : ∀ text, rel (expand text) (expand' text)) :
    rel (resolveUniqueKey S P W rq V rounds resolved key expand)
      (resolveUniqueKey S P W rq V rounds' resolved key expand') := by
  have hR := readsOnly_frame S
  refine hrel.bind (hrel.reads (onAgent_within hR (getInstances_within hS _))) fun iv => ?_
  split
  · exact related_pure hrel _
  · refine hrel.bind (prepareSearch_related hS hrel hkeys _ _ _) fun sps => ?_
    refine related_forEach hrel _ fun entry _ => ?_
    refine hrel.bind (hrel.reads (doKeysMatch_within hR _ _ _)) fun isMatch =>
      hrel.bind (hrel.reads (doKeysMatch_within hR _ _ _)) fun isRefMatch => ?_
    split
    · exact hexpand _
    · exact related_pure hrel _

/-- Two expansions are related as soon as their ends and their references are. -/
theorem expandPath_related {nested nested' : Str → ROp (List Str)}
    (hnested : ∀ value, rel (nested value) (nested' value)) {rounds rounds' : Nat}
    (hkeys : ∀ params, rel (resolveIntermediateReferences S P W rq rounds params)
      (resolveIntermediateReferences S P W rq rounds' params))
    {finish finish' : Str → ROp Unit} (hfinish : ∀ path, rel (finish path) (finish' path))
    (resolved unresolved : Str) :
    rel (expandPath S P W rq V nested rounds finish resolved unresolved)
      (expandPath S P W rq V nested' rounds' finish' resolved unresolved) := by
  have hcheck : ∀ text, rel (expandPath.checkLength text) (expandPath.checkLength text) := by
    intro text
    unfold expandPath.checkLength
    split
    · exact related_failWith hrel _
    · exact related_pure hrel _
  induction hlen : unresolved.length using Nat.strongRecOn generalizing resolved unresolved with
  | ind len ih =>
    subst hlen
    cases unresolved with
    | nil =>
      rw [expandPath, expandPath]
      exact hfinish _
    | cons c unresolved =>
      have hrest : ∀ rest : Str, rest.length < (c :: unresolved).length → ∀ text,
          rel (do
              expandPath.checkLength text
              expandPath S P W rq V nested rounds finish text rest)
            (do
              expandPath.checkLength text
              expandPath S P W rq V nested' rounds' finish' text rest) :=
        fun rest hlt text => hrel.bind (hcheck _) fun _ => ih _ hlt _ _ rfl
      have hlt : unresolved.length < (c :: unresolved).length := Nat.lt_succ_self _
      rw [expandPath, expandPath]
      split
      · exact expandWildcard_related hS hrel _ (hrest _ hlt)
      · split
        · exact resolveReferenceFollow_related hS hrel hnested _ (hrest _ hlt)
        · split
          · split
            · exact related_failWith hrel _
            · rename_i d rest hrestEq
              exact resolveUniqueKey_related hS hrel hkeys _ _
                (hrest _ (Nat.lt_succ_of_lt (rest_shorter hrestEq)))
          · exact hrel.bind (hcheck _) fun _ => ih _ hlt _ _ rfl

omit hrel in
theorem expandPath_within {R : RState → RState → Prop} (hR : ResolverFrame S R)
    {nested : Str → ROp (List Str)} (hnested : ∀ value, Within R (nested value)) (rounds : Nat)
    {finish : Str → ROp Unit} (hfinish : ∀ path, Within R (finish path))
    (resolved unresolved : Str) :
    Within R (expandPath S P W rq V nested rounds finish resolved unresolved) :=
  @expandPath_related _ _ S P W rq V _ hS hR.relation nested nested hnested rounds rounds
    (resolveIntermediateReferences_within hS hR rounds) finish finish hfinish resolved unresolved

end Relation

/-! ## A whole resolution and the agent -/

section Agent

variable {N : Type} {limit : Nat} {S : DmTree} {P : PermissionTable} {W : World} {rq : Request}
  {V : ValueRules N}

theorem update_agentQuiet {f : RState → RState} (h : ∀ s, (f s).agent = s.agent) :
    Within (AgentQuiet S) (.update f : ROp Unit) :=
  within_update fun s => show Quiet S s.agent (f s).agent from h s ▸ Quiet.refl S _

theorem addIfNotExist_agentQuiet (path : Str) : Within (AgentQuiet S) (addIfNotExist path) :=
  update_agentQuiet fun s => by split <;> rfl

theorem addObjectInstanceIfPermitted_agentQuiet (role : Option CombinedRole) (oi : DmInstances) :
    Within (AgentQuiet S) (addObjectInstanceIfPermitted S P role oi) := by
  have hpure : Within (AgentQuiet S) (pure () : ROp Unit) :=
    within_pure (agentQuiet_frame S).toIsFrame ()
  unfold addObjectInstanceIfPermitted
  split
  · exact hpure
  · split
    · exact hpure
    · split
      · exact within_halt _
      · exact hpure
      · exact update_agentQuiet fun _ => rfl

variable (hS : SchemaOk limit S)

include hS

theorem getInstancePaths_within {R : RState → RState → Prop} (hR : ResolverFrame S R)
    (hadd : ∀ path, Within R (addIfNotExist path)) (path : Str) (role : Option CombinedRole) :
    Within R (getInstancePaths S P W path role) := by
  unfold getInstancePaths
  split
  · exact failWith_within hR _
  · rename_i node inst isQualified hget
    split
    · exact within_pure hR.toIsFrame _
    · split
      · exact hadd _
      · have hlist := onAgent_within hR (instVectorGetInstances_within (W := W) hS node inst)
        split
        · exact within_bind hR.toIsFrame (hadd _) fun _ =>
            within_bind hR.toIsFrame hlist fun _ =>
              within_forEach hR.toIsFrame fun n _ => hadd _
        · exact within_bind hR.toIsFrame hlist fun _ =>
            within_forEach hR.toIsFrame fun n _ => hadd _

theorem getAllInstancePathsRecursive_agentQuiet (role : Option CombinedRole) (fuel : Nat)
    (node : NodeId) (inst : DmInstances) :
    Within (AgentQuiet S) (getAllInstancePathsRecursive S P W role fuel node inst) := by
  have hR := agentQuiet_frame S
  induction fuel generalizing node with
  | zero => exact within_pure hR.toIsFrame _
  | succ fuel ih =>
    unfold getAllInstancePathsRecursive
    split
    · exact within_bind hR.toIsFrame (onAgent_within hR (requireTable_within _ _)) fun _ =>
        within_bind hR.toIsFrame (onAgent_within hR (refreshInstVector_within hS _)) fun _ =>
        within_bind hR.toIsFrame (within_read hR.toIsFrame _) fun _ =>
          within_forEach hR.toIsFrame fun _ _ => addObjectInstanceIfPermitted_agentQuiet _ _
    · exact within_forEach hR.toIsFrame fun child _ => ih child

theorem getAllInstancePaths_agentQuiet (path : Str) (role : Option CombinedRole) :
    Within (AgentQuiet S) (getAllInstancePaths S P W path role) := by
  have hR := agentQuiet_frame S
  unfold getAllInstancePaths
  split
  · exact failWith_within hR _
  · refine within_bind hR.toIsFrame (within_require hR.toIsFrame _) fun _ => ?_
    split
    · exact within_bind hR.toIsFrame (within_require hR.toIsFrame _) fun _ =>
        within_bind hR.toIsFrame (onAgent_within hR (requireTop_within _)) fun _ =>
        within_bind hR.toIsFrame (onAgent_within hR (refreshInstVector_within hS _)) fun _ =>
        within_bind hR.toIsFrame (within_read hR.toIsFrame _) fun _ =>
          within_forEach hR.toIsFrame fun _ _ => addObjectInstanceIfPermitted_agentQuiet _ _
    · exact getAllInstancePathsRecursive_agentQuiet hS _ _ _ _

theorem addPathFound_within {R : RState → RState → Prop} (hR : ResolverFrame S R)
    (hadd : ∀ path, Within R (addIfNotExist path))
    (honce : ∀ path groupId, Within R (addOnce rq path groupId)) (path : Str)
    (hall : rq.op = .instances → rq.getAllInstances = true → rq.wantsPaths = true →
      Within R (getAllInstancePaths S P W path rq.role)) :
    Within R (addPathFound S P W rq path) := by
  refine within_bind hR.toIsFrame (onAgent_within hR (getPathProperties_within hS _ _ _))
    fun properties => ?_
  split
  · exact failWith_within hR _
  · split
    · exact within_pure hR.toIsFrame _
    · rename_i hwants
      split
      · exact within_bind hR.toIsFrame (within_require hR.toIsFrame _) fun _ =>
          getInstancePaths_within hS hR hadd _ _
      · split
        · rename_i hop
          split
          · rename_i hget
            exact hall hop hget (by simpa using fun h => hwants (.inr h))
          · exact getInstancePaths_within hS hR hadd _ _
        · exact honce _ _

theorem addPathFound_agentQuiet (path : Str) :
    Within (AgentQuiet S) (addPathFound S P W rq path) :=
  addPathFound_within hS (agentQuiet_frame S) addIfNotExist_agentQuiet
    (fun _ _ => update_agentQuiet fun s => by split <;> rfl) path
    fun _ _ _ => getAllInstancePaths_agentQuiet hS _ _

theorem getTableParams_within {R : RState → RState → Prop} (hR : ResolverFrame S R)
    {walk : Str → NodeId → DmInstances → ROp Unit} (depth : Nat) (path : Str) (node : NodeId)
    (inst : DmInstances)
    (hwalk : ∀ n, Within R (walk (appendName path (intDigits n)) node (inst ++ [(node, n)]))) :
    Within R (getTableParams S W walk depth path node inst) := by
  unfold getTableParams
  split
  · exact within_pure hR.toIsFrame _
  · exact within_bind hR.toIsFrame
      (onAgent_within hR (instVectorGetInstances_within (W := W) hS _ _)) fun _ =>
        within_forEach hR.toIsFrame fun n _ => hwalk n

theorem getChildParams_agentQuiet (depth : Nat) (path : Str) (node : NodeId)
    (inst : DmInstances) : Within (AgentQuiet S) (getChildParams S P W rq depth path node inst) := by
  have hR := agentQuiet_frame S
  induction depth generalizing path node inst with
  | zero => exact within_pure hR.toIsFrame _
  | succ depth ih =>
    refine within_forEach hR.toIsFrame fun child _ => ?_
    dsimp only
    split
    · exact ih _ _ _
    · exact getTableParams_within hS hR _ _ _ _ fun n => ih _ _ _
    · split
      · exact failWith_within hR _
      · split
        · exact update_agentQuiet fun _ => rfl
        · exact within_pure hR.toIsFrame _

theorem resolvePartialPath_agentQuiet (path : Str) :
    Within (AgentQuiet S) (resolvePartialPath S P W rq path) := by
  have hR := agentQuiet_frame S
  unfold resolvePartialPath
  split
  · exact failWith_within hR _
  · split
    · exact failWith_within hR _
    · refine within_bind hR.toIsFrame (onAgent_within hR (instVectorIsExist_within hS _))
        fun b => ?_
      split
      · split
        · exact getChildParams_agentQuiet hS _ _ _ _
        · exact getTableParams_within hS hR _ _ _ _ fun n => getChildParams_agentQuiet hS _ _ _ _
      · exact within_pure hR.toIsFrame _

theorem refreshLifecycleInstances_within {R : RState → RState → Prop} (hR : ResolverFrame S R)
    (path : Str) : Within R (refreshLifecycleInstances S W path) := by
  unfold refreshLifecycleInstances
  split
  · exact within_pure hR.toIsFrame _
  · split
    · exact within_ignore (onAgent_within hR (refreshInstVector_within hS _))
    · exact within_pure hR.toIsFrame _

/-- The operations that a partial path may end. -/
def answersPartial : ResolveOp → Bool
  | .get | .subsValChange | .getBulkData | .subsOper | .subsEvent => true
  | _ => false

theorem finishPath_within {R : RState → RState → Prop} (hR : ResolverFrame S R)
    (hpath : ∀ path, Within R (addPathFound S P W rq path))
    (hwalk : answersPartial rq.op = true → ∀ path, Within R (resolvePartialPath S P W rq path))
    (path : Str) : Within R (finishPath S P W rq path) := by
  unfold finishPath
  split
  · exact hpath _
  · cases hop : rq.op with
    | get | subsValChange | getBulkData | subsOper | subsEvent =>
      exact hwalk (by rw [hop]; rfl) _
    | subsAdd | subsDel =>
      exact within_bind hR.toIsFrame (hpath _) fun _ => refreshLifecycleInstances_within hS hR _
    | add | del | set | instances | any | strictRef | forgivingRef => exact hpath _
    | oper | event => exact within_halt R

theorem finishPath_agentQuiet (path : Str) : Within (AgentQuiet S) (finishPath S P W rq path) :=
  finishPath_within hS (agentQuiet_frame S) (addPathFound_agentQuiet hS)
    (fun _ => resolvePartialPath_agentQuiet hS) path

theorem resolvePath_agentQuiet (fuel : Nat) (rq : Request) (path : Str) :
    Within (AgentQuiet S) (resolvePath S P W V fuel rq path) := by
  have hR := agentQuiet_frame S
  induction fuel generalizing rq path with
  | zero => exact within_fail hR.toIsFrame _
  | succ fuel ih =>
    refine within_bind hR.toIsFrame (within_require hR.toIsFrame _) fun _ => ?_
    split
    · exact failWith_within hR _
    · exact expandPath_within hS hR (fun value => inOwnVector_within hR (ih _ value)) _
        (finishPath_agentQuiet hS) _ _

theorem resolveDevicePath_agentQuiet (fuel : Nat) (rq : Request) (path : Str) :
    Within (AgentQuiet S) (resolveDevicePath S P W rq V fuel path) := by
  have hR := agentQuiet_frame S
  unfold resolveDevicePath
  repeat' split
  all_goals first
    | exact failWith_within hR _
    | exact resolvePath_agentQuiet hS fuel rq path

/-- A resolution keeps a frame that its ends keep. -/
theorem resolvePath_within {R : RState → RState → Prop} (hR : ResolverFrame S R)
    (hfinish : ∀ path, Within R (finishPath S P W rq path)) (fuel : Nat) (path : Str) :
    Within R (resolvePath S P W V fuel rq path) := by
  cases fuel with
  | zero => exact within_fail hR.toIsFrame _
  | succ fuel =>
    refine within_bind hR.toIsFrame (within_require hR.toIsFrame _) fun _ => ?_
    split
    · exact failWith_within hR _
    · exact expandPath_within hS hR
        (fun value => inOwnVector_within hR (resolvePath_agentQuiet hS fuel _ value)) _ hfinish _ _

end Agent

end ResolverFrames
