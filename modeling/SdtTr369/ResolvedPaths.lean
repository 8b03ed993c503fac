import SdtTr369.ObjectWalk
import SdtTr369.PathLookup

/-!
# What the resolved paths name

Every path that a resolution adds names a node of the kind that the operation
asks for, on which the role holds the permission that the operation requires,
and whose instance numbers exist (`resolved_paths_listed`). The operations that
only check the syntax of an expression ask for nothing.
-/

namespace ResolvedPaths

open UspTypes Schema SchemaInvariant DecimalText PathCodec PathText PathRoundTrip EffectProgram List
open Agent InstVector DataModel DataModelRead ExprVector InstanceTree HeldInstances QuietReads
open PathResolver ResolverFrames ObjectWalk PathLookup

/-- The path is looked up at the node, is the path of an object that is named
with the name of a child or a number behind it, or is the instantiated path of
the node. -/
inductive Names (S : DmTree) : Str → NodeId → DmInstances → Bool → Prop where
  | lookup {path : Str} {node : NodeId} {inst : DmInstances} {isQualified : Bool} :
      getQualifiedNode S path = some (node, inst, isQualified) →
      Names S path node inst isQualified
  | child {path : Str} {node child : NodeId} {inst : DmInstances} :
      Names S path node inst true → child ∈ (S.node node).childNodes →
      (S.node child).type ≠ .objectMultiInstance →
      Names S (appendName path (S.node child).name) child inst true
  | table {path : Str} {node child : NodeId} {inst : DmInstances} :
      Names S path node inst true → child ∈ (S.node node).childNodes →
      (S.node child).type = .objectMultiInstance →
      Names S (appendName path (S.node child).name) child inst false
  | number {path : Str} {node : NodeId} {inst : DmInstances} {n : Int} :
      Names S path node inst false →
      Names S (appendName path (intDigits n)) node (inst ++ [(node, n)]) true
  | formed {path : Str} {node : NodeId} {inst : DmInstances} :
      IsInstance S node inst →
      formInstantiatedPath (S.node node).path (instances inst) maxDmPath = some (.ok path) →
      Names S path node inst true

/-- The operations that, as the source says, only check the syntax of an expression. -/
def justChecksSyntax : ResolveOp → Bool
  | .any | .forgivingRef | .strictRef => true
  | _ => false

/-- The kind of node that an operation resolves. -/
def kindAsked (op : ResolveOp) (type : NodeType) (isQualified : Bool) : Bool :=
  match op with
  | .get | .subsValChange | .getBulkData => isParam type
  | .set => isObject type
  | .add => type = .objectMultiInstance && !isQualified
  | .del | .instances => isObject type && isQualified
  | .subsAdd | .subsDel => type = .objectMultiInstance && isQualified
  | .oper | .subsOper => isOperationType type
  | .event | .subsEvent => type = .event
  | .any | .forgivingRef | .strictRef => true

/-- The permission that an operation requires. That of a Set is asked for with
the parameters to set, after the resolution. -/
def permitRequired : ResolveOp → Option Permit
  | .instances => some .getInst
  | op => permitAsked op

/-- What an operation asks of a path that it resolves to the node. -/
structure Listed (S : DmTree) (P : PermissionTable) (rq : Request) (a : State) (path : Str)
    (node : NodeId) (inst : DmInstances) (isQualified : Bool) : Prop where
  names : Names S path node inst isQualified
  kind : kindAsked rq.op (S.node node).type isQualified = true
  permitted : ∀ permit, permitRequired rq.op = some permit →
    getPermissions P node rq.role permit = true
  instantiated : justChecksSyntax rq.op = false → inst = [] ∨ Known a inst

/-- The path is rightly listed, now and after any refresh that can still happen. -/
def Justified (S : DmTree) (P : PermissionTable) (rq : Request) (a : State) (path : Str) : Prop :=
  ∀ b, Quiet S a b → ∃ node inst isQualified, Listed S P rq b path node inst isQualified

variable {a : State} {path : Str} {node : NodeId} {inst : DmInstances} {isQualified : Bool}

theorem Justified.quiet {S : DmTree} {P : PermissionTable} {rq : Request} {b : State}
    (h : Justified S P rq a path) (hq : Quiet S a b) : Justified S P rq b path :=
  fun c hc => h c (hq.trans hc)

/-- Only justified paths are added. -/
def Justifies (S : DmTree) (P : PermissionTable) (rq : Request) (s s' : RState) : Prop :=
  Quiet S s.agent s'.agent ∧
    (StateOk S s.agent → ∀ p ∈ s'.sv, p ∈ s.sv ∨ Justified S P rq s'.agent p)

section Parts

variable {S : DmTree} {P : PermissionTable} {W : World} {rq : Request}

theorem justifies_frame (S : DmTree) (P : PermissionTable) (rq : Request) :
    ResolverFrame S (Justifies S P rq) where
  refl s := ⟨Quiet.refl S s.agent, fun _ _ hp => .inl hp⟩
  trans {s t u} h h' := by
    refine ⟨h.1.trans h'.1, fun hok p hp => ?_⟩
    rcases h'.2 (h.1.ok hok) p hp with hp | hp
    · exact (h.2 hok p hp).imp_right fun hj => hj.quiet h'.1
    · exact .inr hp
  quiet _ _ hq := ⟨hq, fun _ _ hp => .inl hp⟩

theorem within_justifies {m : ROp Unit} (hq : Within (AgentQuiet S) m)
    (h : ∀ s, StateOk S s.agent →
      Keeps True m s fun s' => ∀ p ∈ s'.sv, p ∈ s.sv ∨ Justified S P rq s'.agent p) :
    Within (Justifies S P rq) m := by
  intro s
  by_cases hok : StateOk S s.agent
  · exact ((hq s).and (h s hok)).mono (fun _ _ h => ⟨h.1, fun _ => h.2⟩)
      fun _ _ h => ⟨h.1, fun _ => h.2⟩
  · exact keeps_mono (hq s) fun _ h => ⟨h, fun hok' => absurd hok' hok⟩

variable {s : RState} {op : ResolveOp} {flags : PathFlags} {type : NodeType}

theorem mem_addIfNotExist {p : Str}
    (h : p ∈ (if path ∈ s.sv then s else { s with sv := s.sv ++ [path] }).sv) :
    p ∈ s.sv ∨ p = path := by
  split at h
  · exact .inl h
  · simpa using h

/-! ## The listings of instances -/

section

variable (hS : SchemaOk maxDmInstanceOrder S)
include hS

/-- An instance of a table is not followed by another number of that table. -/
theorem not_known_twice (hok : StateOk S a) (h : IsInstance S node inst) (n : Int) :
    ¬ Known a (inst ++ [(node, n)]) := by
  rintro ⟨t, ht, hpre⟩
  obtain ⟨q, hq⟩ := hok.instance ht
  obtain ⟨q', hq'⟩ := hq.of_isPrefix hS hpre (by simp)
  have hnodes := hq'.nodes
  rw [map_append, map_singleton] at hnodes
  obtain ⟨-, -, hself⟩ := instanceNodes_split hS q' hq'.lt _ [] node hnodes.symm
  rw [← h.nodes] at hself
  simpa using congrArg List.length hself

theorem getInstancePaths_justified {role : Option CombinedRole}
    (hget : getQualifiedNode S path = some (node, inst, isQualified)) (hok : StateOk S s.agent)
    (hself : getPermissions P node role .getInst = true →
      (S.node node).type ≠ .objectMultiInstance ∨ isQualified = true →
        Justified S P rq s.agent path)
    (heach : getPermissions P node role .getInst = true →
      (S.node node).type = .objectMultiInstance → isQualified = false →
        ∀ n b, Known b (inst ++ [(node, n)]) → ∃ node inst isQualified,
          Listed S P rq b (appendName path (intDigits n)) node inst isQualified) :
    Keeps True (getInstancePaths S P W path role) s
      fun s' => ∀ p ∈ s'.sv, p ∈ s.sv ∨ Justified S P rq s'.agent p := by
  unfold getInstancePaths
  rw [hget]
  simp only
  split
  · exact fun p hp => .inl hp
  · rename_i hperm
    have hperm : getPermissions P node role .getInst = true := by simpa using hperm
    split
    · rename_i hm
      rw [Keeps, addIfNotExist, wp_update]
      intro p hp
      refine (mem_addIfNotExist hp).imp_right ?_
      rintro rfl
      have hagent : (if p ∈ s.sv then s else { s with sv := s.sv ++ [p] }).agent = s.agent := by
        split <;> rfl
      rw [hagent]
      exact hself hperm (.inl hm)
    · rename_i hm
      have hm : (S.node node).type = .objectMultiInstance := Decidable.not_not.mp hm
      -- the loop over the instances, from a state in which only the path itself was added
      have hloop : ∀ s₁ : RState, s₁.agent = s.agent →
          (∀ p ∈ s₁.sv, p ∈ s.sv ∨ Justified S P rq s.agent p) →
          Keeps True (do
            let iv ← onAgent (instVectorGetInstances S W node inst)
            .forEach iv fun n => addIfNotExist (appendName path (intDigits n))) s₁
            fun s' => ∀ p ∈ s'.sv, p ∈ s.sv ∨ Justified S P rq s'.agent p := by
        intro s₁ hagent hs₁
        rw [Keeps, wp_bind, wp_onAgent, hagent]
        refine (instVectorGetInstances_known hS hok node inst).mono (fun iv a h => ?_)
          fun _ a hq p hp => (hs₁ p hp).imp_right fun hj => hj.quiet hq
        obtain ⟨hq, hset, hiv⟩ := h
        have hstart : ∀ p ∈ s₁.sv, p ∈ s.sv ∨ Justified S P rq a p := fun p hp =>
          (hs₁ p hp).imp_right fun hj => hj.quiet hq
        refine keeps_mono (I := fun s' : RState => s'.agent = a ∧
          ∀ p ∈ s'.sv, p ∈ s.sv ∨ Justified S P rq a p) ?_ fun s' h p hp => by
            rw [h.1]
            exact h.2 p hp
        refine keeps_forEach ⟨rfl, hstart⟩ fun n hn s' hs' => ?_
        have hknown : Known a (inst ++ [(node, n)]) := (hiv n).mp hn
        rw [Keeps, addIfNotExist, wp_update]
        refine ⟨?_, fun p hp => ?_⟩
        · split <;> exact hs'.1
        · rcases mem_addIfNotExist hp with hp | rfl
          · exact hs'.2 p hp
          · refine .inr fun b hb => ?_
            cases isQualified with
            | true =>
              exact absurd hknown (not_known_twice hS (hq.ok hok)
                (getQualifiedNode_instance hS hget hm) n)
            | false =>
              refine heach hperm hm rfl n b ?_
              exact (hb.known_iff (by simp) (topNodeOf_eq n ▸ hset)).mpr hknown
      split
      · rename_i hqual
        rw [Keeps, wp_bind, addIfNotExist, wp_update]
        refine hloop _ (by split <;> rfl) fun p hp => ?_
        refine (mem_addIfNotExist hp).imp_right ?_
        rintro rfl
        exact hself hperm (.inr hqual)
      · exact hloop s rfl fun p hp => .inl hp

theorem addObjectInstance_justified (hop : rq.op = .instances) (hok : StateOk S s.agent)
    {oi : DmInstances} (hheld : Held s.agent oi) (hset : SettledAt S s.agent (topNode oi)) :
    Keeps True (addObjectInstanceIfPermitted S P rq.role oi) s fun s' =>
      s'.agent = s.agent ∧ ∀ p ∈ s'.sv, p ∈ s.sv ∨ Justified S P rq s.agent p := by
  have hsame : s.agent = s.agent ∧ ∀ p ∈ s.sv, p ∈ s.sv ∨ Justified S P rq s.agent p :=
    ⟨rfl, fun _ hp => .inl hp⟩
  unfold addObjectInstanceIfPermitted
  split
  · exact hsame
  · rename_i node n hlast
    split
    · exact hsame
    · rename_i hperm
      split
      · trivial
      · exact hsame
      · rename_i path hform
        refine ⟨rfl, fun p hp => ?_⟩
        rw [mem_append, mem_singleton] at hp
        refine hp.imp_right ?_
        rintro rfl b hb
        obtain ⟨q, hq⟩ := hok.instance hheld
        obtain ⟨m, -, hlast', -⟩ := hq.dropLast hS
        rw [hlast] at hlast'
        cases hlast'
        refine ⟨node, oi, true, .formed hq hform, ?_, fun permit hpermit => ?_, fun _ => ?_⟩
        · simp [kindAsked, hop, hq.table, isObject]
        · rw [hop] at hpermit
          cases hpermit
          simpa using hperm
        · exact .inr ((hb.held_iff hset).mpr hheld).known

/-- The instances in the vector of a table that has just been refreshed. -/
theorem listVector_justified (hop : rq.op = .instances) (hok : StateOk S s.agent) {top : NodeId}
    (hset : SettledAt S s.agent top) (select : DmInstances → Bool) :
    Keeps True (.forEach ((s.agent.instVector top).filter select)
      (addObjectInstanceIfPermitted S P rq.role)) s
      fun s' => ∀ p ∈ s'.sv, p ∈ s.sv ∨ Justified S P rq s'.agent p := by
  refine keeps_mono (I := fun s' : RState => s'.agent = s.agent ∧
    ∀ p ∈ s'.sv, p ∈ s.sv ∨ Justified S P rq s.agent p) ?_ fun s' h p hp => by
      rw [h.1]
      exact h.2 p hp
  refine keeps_forEach ⟨rfl, fun _ hp => .inl hp⟩ fun oi hoi s' hs' => ?_
  have hmem := (List.mem_filter.mp hoi).1
  have htop : topNode oi = top := (hok.held top oi hmem).1
  have hheld : Held s.agent oi := by
    rw [Held, htop]
    exact hmem
  refine keeps_mono (addObjectInstance_justified hS hop (s := s') (hs'.1 ▸ hok) (hs'.1 ▸ hheld)
    (by rw [hs'.1, htop]; exact hset)) fun s'' h => ⟨h.1.trans hs'.1, fun p hp => ?_⟩
  rcases h.2 p hp with hp | hp
  · exact hs'.2 p hp
  · rw [hs'.1] at hp
    exact .inr hp

theorem getAllInstancePaths_justified (hop : rq.op = .instances) (path : Str) :
    Within (Justifies S P rq) (getAllInstancePaths S P W path rq.role) := by
  have hR := justifies_frame S P rq
  have hlist : ∀ (top : NodeId) (select : DmInstances → Bool), Within (Justifies S P rq) (do
      onAgent (refreshInstVector S W top)
      let div ← .read fun s => s.agent.instVector top
      .forEach (div.filter select) (addObjectInstanceIfPermitted S P rq.role)) := by
    intro top select
    refine within_justifies ?_ fun s hok => ?_
    · exact within_bind (agentQuiet_frame S).toIsFrame
        (onAgent_within (agentQuiet_frame S) (refreshInstVector_within hS _)) fun _ =>
        within_bind (agentQuiet_frame S).toIsFrame
          (within_read (agentQuiet_frame S).toIsFrame _) fun _ =>
          within_forEach (agentQuiet_frame S).toIsFrame fun _ _ =>
            addObjectInstanceIfPermitted_agentQuiet _ _
    · rw [Keeps, wp_bind, wp_onAgent]
      refine (refreshInstVector_quiet hS top).mono (fun _ a h => ?_)
        fun _ a hq p hp => .inl hp
      rw [wp_bind, wp_read]
      exact listVector_justified hS hop (s := { s with agent := a }) (h.1.ok hok) h.2 select
  have hrecursive : ∀ (fuel : Nat) (node : NodeId) (inst : DmInstances),
      Within (Justifies S P rq) (getAllInstancePathsRecursive S P W rq.role fuel node inst) := by
    intro fuel
    induction fuel with
    | zero => exact fun _ _ => within_pure hR.toIsFrame _
    | succ fuel ih =>
      intro node inst
      unfold getAllInstancePathsRecursive
      split
      · exact within_bind hR.toIsFrame (onAgent_within hR (requireTable_within _ _)) fun _ =>
          hlist _ _
      · exact within_forEach hR.toIsFrame fun child _ => ih child inst
  unfold getAllInstancePaths
  split
  · exact failWith_within hR _
  · refine within_bind hR.toIsFrame (within_require hR.toIsFrame _) fun _ => ?_
    split
    · exact within_bind hR.toIsFrame (within_require hR.toIsFrame _) fun _ =>
        within_bind hR.toIsFrame (onAgent_within hR (requireTop_within _)) fun _ => hlist _ _
    · exact hrecursive _ _ _

/-! ## The checks of a path -/

end

theorem checkPathProperties_ok {properties : PathProperties}
    (h : checkPathProperties op properties = .ok true) :
    checkKind op properties.flags = .ok () ∧ checkQualified op properties.flags = .ok () ∧
      checkPermission op properties.permissions = .ok true ∧
      checkInstances op properties.flags = .ok true ∧
      properties.flags.existsInSchema = true := by
  unfold checkPathProperties at h
  split at h
  · cases h
  · rename_i hexist
    simp only [bind, Except.bind] at h
    split at h
    · cases h
    · rename_i hkind
      split at h
      · cases h
      · rename_i hqualified
        split at h
        · cases h
        · rename_i permitted hpermission
          cases permitted with
          | false => cases h
          | true => exact ⟨hkind, hqualified, hpermission, h, by simpa using hexist⟩

variable {permissions : Permit → Bool}

theorem checkPermission_ok {permit : Permit} (h : checkPermission op permissions = .ok true)
    (hasked : permitAsked op = some permit) : permissions permit = true := by
  unfold checkPermission at h
  rw [hasked] at h
  simp only at h
  split at h
  · assumption
  · split at h
    · cases h
    · split at h <;> cases h

theorem checkInstances_ok (h : checkInstances op flags = .ok true)
    (hop : justChecksSyntax op = false) : flags.instanceNumbersExist = true := by
  cases op <;> simp_all [checkInstances, justChecksSyntax]

/-- The checks of the flags leave the kind that the operation asks for. -/
theorem kindAsked_of_checks
    (hflags : ∃ exist parentExist, flags = { nodeFlags type isQualified with
      instanceNumbersExist := exist, parentInstanceNumbersExist := parentExist })
    (hopen : isQualified = false → type = .objectMultiInstance)
    (hkind : checkKind op flags = .ok ()) (hqualified : checkQualified op flags = .ok ())
    (hsubs : ¬ ((op = .subsAdd ∨ op = .subsDel) ∧ flags.isObjectInstance = false))
    (hinstances : op ≠ .instances) : kindAsked op type isQualified = true := by
  obtain ⟨exist, parentExist, rfl⟩ := hflags
  cases op <;> cases isQualified <;> cases type <;>
    simp_all [checkKind, checkQualified, kindAsked, nodeFlags, isObject, isParam, isOperationType]

theorem subs_of_kind
    (hflags : ∃ exist parentExist, flags = { nodeFlags type isQualified with
      instanceNumbersExist := exist, parentInstanceNumbersExist := parentExist })
    (hopen : isQualified = false → type = .objectMultiInstance)
    (hop : op = .subsAdd ∨ op = .subsDel) (hqualified : checkQualified op flags = .ok ())
    (hobject : flags.isObjectInstance = false) :
    type = .objectMultiInstance ∧ isQualified = false := by
  obtain ⟨exist, parentExist, rfl⟩ := hflags
  rcases hop with rfl | rfl <;> cases isQualified <;> cases type <;>
    simp_all [checkQualified, nodeFlags, isObject]

theorem addPathFound_justified (hS : SchemaOk maxDmInstanceOrder S) (hW : RefreshesSucceed W)
    (path : Str) : Within (Justifies S P rq) (addPathFound S P W rq path) := by
  refine within_justifies (addPathFound_agentQuiet hS path) fun s hok => ?_
  rw [Keeps, addPathFound, wp_bind, wp_onAgent]
  refine (getPathProperties_spec hS hW hok P path rq.role).mono (fun properties a h => ?_)
    fun _ _ h => h.elim
  obtain ⟨hq, hpath⟩ := h
  have hsame : ∀ p ∈ s.sv, p ∈ s.sv ∨ Justified S P rq a p := fun _ hp => .inl hp
  split
  · exact hsame
  · rename_i addToVector hchecks
    split
    · exact hsame
    · rename_i hadd
      have hadd : addToVector = true := by
        simp only [not_or, Bool.not_eq_false] at hadd
        exact hadd.1
      subst hadd
      obtain ⟨hkind, hqualified, hpermission, hexist, hschema⟩ := checkPathProperties_ok hchecks
      cases hget : getQualifiedNode S path with
      | none =>
        rw [hget] at hpath
        rw [hpath] at hschema
        cases hschema
      | some found =>
        obtain ⟨node, inst, isQualified⟩ := found
        rw [hget] at hpath
        have hopen : isQualified = false → (S.node node).type = .objectMultiInstance :=
          fun hfalse => ((getQualifiedNode_spec hS hget).2.2 hfalse).1
        have hpermit : ∀ permit, permitAsked rq.op = some permit →
            getPermissions P node rq.role permit = true := fun permit hasked =>
          hpath.permissions ▸ checkPermission_ok hpermission hasked
        have hpresent : justChecksSyntax rq.op = false → Present S a inst := fun hop =>
          hpath.present (checkInstances_ok hexist hop)
        have hinst : ∀ b, Quiet S a b → justChecksSyntax rq.op = false → inst = [] ∨ Known b inst :=
          fun b hb hop => ((hpresent hop).quiet hb).imp_right And.left
        by_cases hsubs : (rq.op = .subsAdd ∨ rq.op = .subsDel) ∧
            properties.flags.isObjectInstance = false
        · obtain ⟨hm, hfalse⟩ := subs_of_kind hpath.flags hopen hsubs.1 hqualified hsubs.2
          rw [if_pos hsubs, wp_bind, wp_require]
          split
          · refine getInstancePaths_justified hS hget (s := { s with agent := a }) (hq.ok hok) ?_ ?_
            · rintro - (hne | htrue)
              · exact absurd hm hne
              · rw [hfalse] at htrue
                cases htrue
            · intro _ _ _ n b hb
              refine ⟨node, inst ++ [(node, n)], true, .number (.lookup (hfalse ▸ hget)), ?_, ?_,
                fun _ => .inr hb⟩
              · rcases hsubs.1 with hop | hop <;> simp [kindAsked, hop, hm]
              · intro permit hrequired
                rcases hsubs.1 with hop | hop <;>
                  exact hpermit permit (by simpa [hop, permitRequired] using hrequired)
          · trivial
        · rw [if_neg hsubs]
          by_cases hinstances : rq.op = .instances
          · have hobject : isObject (S.node node).type = true := by
              obtain ⟨exist, parentExist, hflags⟩ := hpath.flags
              have hflag : properties.flags.isObject = isObject (S.node node).type := by rw [hflags]; rfl
              rw [hinstances, checkKind, hflag] at hkind
              by_contra hno
              rw [if_neg hno] at hkind
              cases hkind
            have hsyntax : justChecksSyntax rq.op = false := by rw [hinstances]; rfl
            rw [if_pos hinstances]
            split
            · exact keeps_mono (getAllInstancePaths_justified hS hinstances path
                { s with agent := a }) fun s' h => h.2 (hq.ok hok)
            · refine getInstancePaths_justified hS hget (s := { s with agent := a }) (hq.ok hok) ?_ ?_
              · intro hperm hwhich b hb
                have htrue : isQualified = true := by
                  rcases hwhich with hne | htrue
                  · cases isQualified with
                    | true => rfl
                    | false => exact absurd (hopen rfl) hne
                  · exact htrue
                refine ⟨node, inst, isQualified, .lookup hget, ?_, ?_, hinst b hb⟩
                · simp [kindAsked, hinstances, hobject, htrue]
                · intro permit hrequired
                  rw [hinstances] at hrequired
                  cases hrequired
                  exact hperm
              · intro hperm hm hfalse n b hb
                refine ⟨node, inst ++ [(node, n)], true, .number (.lookup (hfalse ▸ hget)), ?_, ?_,
                  fun _ => .inr hb⟩
                · simp [kindAsked, hinstances, hobject]
                · intro permit hrequired
                  rw [hinstances] at hrequired
                  cases hrequired
                  exact hperm
          · rw [if_neg hinstances, addOnce, wp_update]
            have hagent : (if path ∈ s.sv then { s with agent := a } else
                { s with
                  agent := a
                  sv := s.sv ++ [path]
                  gv := if rq.wantsGroups then s.gv ++ [properties.groupId] else s.gv } : RState).agent
                = a := by split <;> rfl
            intro p hp
            rw [hagent]
            have hmem : p ∈ s.sv ∨ p = path := by
              split at hp
              · exact .inl hp
              · simpa using hp
            refine hmem.imp_right ?_
            rintro rfl b hb
            refine ⟨node, inst, isQualified, .lookup hget,
              kindAsked_of_checks hpath.flags hopen hkind hqualified hsubs hinstances, ?_,
              hinst b hb⟩
            intro permit hrequired
            refine hpermit permit ?_
            cases hop : rq.op <;> simp_all [permitRequired]

/-! ## Partial paths -/

theorem walks_names {depth : Nat} {p : Str} {leaf : NodeId} {t : DmInstances}
    (h : Walks S (Known a) depth path node inst leaf t p) (hnames : Names S path node inst true) :
    Names S p leaf t true ∧ isObject (S.node leaf).type = false ∧ (t = inst ∨ Known a t) := by
  induction h with
  | leaf hc hleaf =>
    refine ⟨.child hnames hc fun hm => ?_, hleaf, .inl rfl⟩
    rw [hm] at hleaf
    cases hleaf
  | object hc htype _ ih => exact ih (.child hnames hc (by simp [htype]))
  | table hc htype hknown _ ih =>
    obtain ⟨hp, hleaf, ht⟩ := ih (.number (.table hnames hc htype))
    refine ⟨hp, hleaf, .inr ?_⟩
    rcases ht with rfl | ht
    · exact hknown
    · exact ht

theorem checkChild_ok (h : checkChild op type permissions = .ok true) :
    kindAsked op type true = true ∧
      ∀ permit, permitRequired op = some permit → permissions permit = true := by
  cases op <;> cases type <;>
    simp_all [checkChild, isParam, kindAsked, permitRequired, permitAsked, isOperationType]

/-- What the walk below a named and present object finds is rightly listed. -/
theorem walkFinds_listed {depth : Nat} {e : Found} (h : WalkFinds S P rq depth path node inst a e)
    (hnames : Names S path node inst true) (hinst : inst = [] ∨ Known a inst) :
    Listed S P rq a e.path e.node e.inst true := by
  obtain ⟨-, hwalk, hcheck⟩ := h
  obtain ⟨hp, -, ht⟩ := walks_names hwalk hnames
  obtain ⟨hkind, hpermit⟩ := checkChild_ok hcheck
  refine ⟨hp, hkind, hpermit, fun _ => ?_⟩
  rcases ht with ht | ht
  · exact ht ▸ hinst
  · exact .inr ht

theorem partialFinds_listed {e : Found} (h : PartialFinds S P rq path a e) :
    Listed S P rq a e.path e.node e.inst true := by
  unfold PartialFinds at h
  split at h
  · exact h.elim
  · rename_i node inst isQualified hget
    obtain ⟨-, hinst, h⟩ := h
    cases isQualified with
    | true => exact walkFinds_listed h (.lookup hget) hinst
    | false =>
      obtain ⟨n, hn, h⟩ := h
      exact walkFinds_listed h (.number (.lookup hget)) (.inr hn)

theorem resolvePartialPath_justified (hS : SchemaOk maxDmInstanceOrder S) (path : Str) :
    Within (Justifies S P rq) (resolvePartialPath S P W rq path) := by
  refine within_justifies (resolvePartialPath_agentQuiet hS path) fun s hok => ?_
  have hsound : ∀ s' : RState, Added S (PartialFinds S P rq path) s s' →
      ∀ p ∈ s'.sv, p ∈ s.sv ∨ Justified S P rq s'.agent p := by
    intro s' hadded p hp
    by_cases hmem : p ∈ s.sv
    · exact .inl hmem
    · refine .inr fun b hb => ?_
      obtain ⟨e, he, rfl⟩ := (hadded.sound hb hp).resolve_left hmem
      exact ⟨e.node, e.inst, true, partialFinds_listed he⟩
  exact (resolvePartialPath_adds hS path s hok).mono (fun _ s' h => hsound s' h.added)
    fun _ s' h => hsound s' h

theorem finishPath_justified (hS : SchemaOk maxDmInstanceOrder S) (hW : RefreshesSucceed W)
    (path : Str) : Within (Justifies S P rq) (finishPath S P W rq path) :=
  finishPath_within hS (justifies_frame S P rq) (addPathFound_justified hS hW)
    (fun _ => resolvePartialPath_justified hS) path

end Parts

/-! ## Ordinary paths are found where they are listed -/

section Ordinary

variable {S : DmTree}

theorem mem_fill {segs ns : List Str} {s : Str} (hcount : ns.length ≤ segs.count multiSeparator)
    (hs : s ∈ ns) : s ∈ fillSegments segs ns := by
  induction segs generalizing ns with
  | nil =>
    cases ns with
    | nil => cases hs
    | cons n ns => simp at hcount
  | cons t segs ih =>
    cases ns with
    | nil => cases hs
    | cons n ns =>
      rw [fillSegments]
      split
      · rename_i ht
        rw [ht, count_cons_self, length_cons] at hcount
        rcases List.mem_cons.mp hs with rfl | hs
        · exact mem_cons_self
        · exact mem_cons_of_mem _ (ih (Nat.le_of_succ_le_succ hcount) hs)
      · rename_i ht
        rw [count_cons_of_ne ht] at hcount
        exact mem_cons_of_mem _ (ih hcount hs)

/-- The instantiated path of an instance, read back. -/
theorem formed_lookup (hS : SchemaOk maxDmInstanceOrder S) (hclean : CleanTree S)
    (hinst : IsInstance S node inst)
    (hform : formInstantiatedPath (S.node node).path (instances inst) maxDmPath = some (.ok path))
    (hpath : Ordinary S path) : getQualifiedNode S path = some (node, inst, true) := by
  have horder := hS.order_eq node hinst.lt
  have hlen : (instances inst).length = (S.node node).order := by
    rw [horder, ← hinst.nodes, instances, length_map, length_map]
  rw [formInstantiatedPath_node hS hclean hinst.lt hlen] at hform
  split at hform
  · simp only [Option.some.injEq, Except.ok.injEq] at hform
    obtain ⟨l, hl⟩ := exists_treePath hS node hinst.lt
    have hcount : ((instances inst).map intDigits).length ≤
        (segments (S.node node).path).count multiSeparator := by
      have hplaces := hl.placeholders_eq hS
      rw [← horder, ← hlen] at hplaces
      rw [length_map]
      exact Nat.le_of_eq hplaces.symm
    have hdots : ∀ s ∈ fillSegments (segments (S.node node).path)
        ((instances inst).map intDigits), '.' ∉ s := by
      intro s hs
      rcases mem_fillSegments hs with hs | hs
      · exact dot_not_mem_segment _ s hs
      · obtain ⟨n, -, rfl⟩ := List.mem_map.mp hs
        exact dot_not_mem_intDigits n
    have hrange : ∀ n ∈ instances inst, 0 ≤ n ∧ n < signedLimit := by
      intro n hn
      refine hpath.numbers n ?_
      rw [← hform, instantiatedText, segments_join hdots (fillSegments_ne_nil (segments_ne_nil _) _)]
      exact mem_fill hcount (mem_map_of_mem hn)
    obtain ⟨nums, hnums⟩ := exists_nat_of_nonneg fun n hn => (hrange n hn).1
    have hsmall : ∀ n ∈ nums, n < signedLimit := by
      intro n hn
      have := (hrange n (hnums ▸ mem_map_of_mem hn)).2
      omega
    have hdigits : (instances inst).map intDigits = nums.map natDigits := by
      rw [hnums, map_map]
      rfl
    have hcalc : calcHashFromPath path = .ok ((S.node node).hash, instances inst) := by
      rw [← hform, hdigits, calcHashFromPath_node hS hclean hinst.lt
        (by rw [← hlen, hnums, length_map]), map_readBack hsmall, hnums]
    have hfind : findPathNode S (S.node node).hash = some node := by
      rw [findPathNode, (findNodeFromHash_some hS).mpr ⟨hinst.lt, rfl⟩]
    unfold getQualifiedNode getNodeFromPath
    simp only [hcalc, hfind, zipNodes_instances hinst.nodes]
    rw [if_pos]
    rw [← hlen, instances, length_map]
  · cases hform

theorem Names.found (hS : SchemaOk maxDmInstanceOrder S) (hclean : CleanTree S)
    (h : Names S path node inst isQualified) (hpath : Ordinary S path) :
    getQualifiedNode S path = some (node, inst, isQualified) := by
  induction h with
  | lookup h => exact h
  | child _ hc htype ih =>
    have happend := appendName_short hpath.short
    rw [happend] at hpath ⊢
    exact lookup_child hS (ih hpath.root) hpath hc htype
  | table _ hc htype ih =>
    have happend := appendName_short hpath.short
    rw [happend] at hpath ⊢
    exact lookup_table hS (ih hpath.root) hpath hc htype
  | number _ ih =>
    have happend := appendName_short hpath.short
    rw [happend] at hpath ⊢
    exact lookup_number hS (ih hpath.root) hpath
  | formed hinst hform => exact formed_lookup hS hclean hinst hform hpath

end Ordinary

/-! ## The result of a resolution -/

/-- Every path that a resolution adds is one that its operation asks for, and an
ordinary path is found there when it is looked up again. -/
theorem resolved_paths_listed {N : Type} (rs : List Registration) (hrs : ∀ r ∈ rs, WithinArrays r)
    (P : PermissionTable) (W : World) (hW : RefreshesSucceed W) (V : ValueRules N) (fuel : Nat)
    (rq : Request) (path : Str) (s s' : RState) (r : Except Fault Unit)
    (hok : StateOk (registerAll initialTree rs) s.agent)
    (hrun : resolvePath (registerAll initialTree rs) P W V fuel rq path s = some (r, s'))
    (p : Str) (hp : p ∈ s'.sv) :
    p ∈ s.sv ∨ ∃ node inst isQualified,
      Listed (registerAll initialTree rs) P rq s'.agent p node inst isQualified ∧
      (CleanTree (registerAll initialTree rs) → Ordinary (registerAll initialTree rs) p →
        getQualifiedNode (registerAll initialTree rs) p = some (node, inst, isQualified)) := by
  have hS := registered_ok hrs
  have h := (resolvePath_within (V := V) hS (justifies_frame (registerAll initialTree rs) P rq)
    (finishPath_justified hS hW) fuel path).of_run hrun
  refine (h.2 hok p hp).imp_right fun hj => ?_
  obtain ⟨node, inst, isQualified, hlisted⟩ := hj s'.agent (Quiet.refl _ _)
  exact ⟨node, inst, isQualified, hlisted, fun hclean hord => hlisted.names.found hS hclean hord⟩

/-- Whole numbers, as far as a comparison needs them. -/
def wholeNumbers : ValueRules Int where
  scan s :=
    match s.dropWhile isBlank with
    | [] => .endOfInput
    | c :: rest =>
      let digits := (c :: rest).takeWhile isNumeric
      if digits = [] then .noMatch else .value (natValue digits)
  unset := 0
  eq m n := m = n
  lt m n := m < n
  le m n := m ≤ n
  unixTime _ := none

/-- Nothing fails, and a refresh would find no instances. -/
def readyWorld : World := { quietWorld with refreshInstances := fun _ => some ([], 0) }

theorem readyWorld_refreshes : RefreshesSucceed readyWorld := fun _ => by simp [readyWorld]

/-- The role 0 may read everything. -/
def readers : PermissionTable := fun _ role permit => role = 0 && permit = .get

def getRequest : Request := { op := .get, depth := fullDepth, role := some ⟨0, 1⟩ }

/-- A table with a reference. -/
def referenceTable : List Registration :=
  [tableRegistration "Device.A.{i}",
    { path := "Device.A.{i}.Ref".toList, type := .dbParamReadWrite, flags := {} }]

theorem referenceTable_within : ∀ r ∈ referenceTable, WithinArrays r := by
  intro r hr
  simp only [referenceTable, mem_cons, not_mem_nil, or_false] at hr
  rcases hr with rfl | rfl <;> exact ⟨by decide, by decide, by decide⟩

/-- Two instances with this reference. -/
def referenceState (value : Str) : State :=
  let S := registerAll initialTree referenceTable
  { initialState with
    instVector := fun n => if n = 2 then [[(2, 1)], [(2, 2)]] else []
    db := ⟨[(rowKey S 3 [(2, 1)], value), (rowKey S 3 [(2, 2)], value)], none⟩ }

theorem resolved_paths_listed_nested :
    let S := registerAll initialTree nestedTables
    let s := (resolvePath S readers readyWorld wholeNumbers 1 getRequest
      "Device.A.*.B.4.P".toList).after ⟨nestedInstances, [], []⟩
    ∀ p ∈ s.sv, p ∈ ([] : List Str) ∨ ∃ node inst isQualified,
      Listed S readers getRequest s.agent p node inst isQualified ∧
      (CleanTree S → Ordinary S p → getQualifiedNode S p = some (node, inst, isQualified)) := by
  intro S s p hp
  refine resolved_paths_listed nestedTables nestedTables_within readers readyWorld
    readyWorld_refreshes wholeNumbers 1 getRequest "Device.A.*.B.4.P".toList
    ⟨nestedInstances, [], []⟩ s (.ok ()) nestedInstances_ok ?_ p hp
  exact Prog.run_eq (by decide +kernel)

/-- A resolution that only checks the syntax lists an instance that does not exist. -/
theorem syntax_check_lists_absent :
    let S := registerAll initialTree nestedTables
    let s := (resolvePath S readers readyWorld wholeNumbers 1
      { op := .any, depth := fullDepth, role := some ⟨0, 1⟩ } "Device.A.5".toList).after
      ⟨initialState, [], []⟩
    "Device.A.5".toList ∈ s.sv ∧
      getQualifiedNode S "Device.A.5".toList = some (2, [(2, 5)], true) ∧
      ¬ Known s.agent [(2, 5)] := by
  intro S s
  have hS : SchemaOk maxDmInstanceOrder S := registered_ok nestedTables_within
  have hrun : resolvePath S readers readyWorld wholeNumbers 1
      { op := .any, depth := fullDepth, role := some ⟨0, 1⟩ } "Device.A.5".toList
      ⟨initialState, [], []⟩ = some (.ok (), s) := Prog.run_eq (by decide +kernel)
  have hq : Quiet S initialState s.agent := (resolvePath_agentQuiet hS _ _ _).of_run hrun
  have hset : SettledAt S initialState 2 := fun h => absurd h (by decide)
  refine ⟨by decide +kernel, by decide +kernel, fun hknown => ?_⟩
  obtain ⟨t, ht, -⟩ := (hq.known_iff (t := [(2, 5)]) (by simp) hset).mp hknown
  cases ht

end ResolvedPaths
