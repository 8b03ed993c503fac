import SdtTr369.ResolvedEnds

/-!
# The paths found at the ends of an expression

Where an expression of a reading operation ends in a partial path, the names and numbers
down to a parameter are put behind it; where it ends in anything else, the path is its own
text. The texts stay in the buffers of the resolver, which cut off what is too long.
-/

namespace FoundPaths

open UspTypes Schema SchemaInvariant DecimalText PathCodec PathText EffectProgram Agent
open List
open DataModel DataModelRead ExprVector HeldInstances QuietReads PathResolver
open ResolverFrames ResolverFuel ReferenceChains ObjectWalk ResolvedEnds

/-! ## What lies below an object -/

/-- The names and instance numbers from an object down to something that is no object. -/
inductive Below (S : DmTree) : NodeId → List Str → Prop where
  | leaf {node child : NodeId} : child ∈ (S.node node).childNodes →
      isObject (S.node child).type = false → Below S node [(S.node child).name]
  | object {node child : NodeId} {segs : List Str} : child ∈ (S.node node).childNodes →
      (S.node child).type = .objectSingleInstance → Below S child segs →
      Below S node ((S.node child).name :: segs)
  | table {node child : NodeId} {n : Int} {segs : List Str} : child ∈ (S.node node).childNodes →
      (S.node child).type = .objectMultiInstance → Below S child segs →
      Below S node ((S.node child).name :: intDigits n :: segs)

/-- The text of a path that goes on with these segments, as the buffers hold it. -/
def goesOn (path : Str) (segs : List Str) : Str :=
  (path ++ segs.flatMap ('.' :: ·)).take (maxDmPath - 1)

theorem take_take_append {α : Type} (k : Nat) (l r : List α) :
    (l.take k ++ r).take k = (l ++ r).take k := by
  by_cases h : l.length ≤ k
  · rw [take_of_length_le h]
  · have hlen : (l.take k).length = k := by rw [length_take]; omega
    rw [take_left' hlen, take_append_of_le_length (by omega)]

theorem goesOn_appendName (path name : Str) (segs : List Str) :
    goesOn (appendName path name) segs = goesOn path (name :: segs) := by
  rw [goesOn, goesOn, appendName, take_take_append, flatMap_cons, append_assoc]

variable {p text : Str} {node : NodeId} {segs : List Str} {r : Except Fault Unit}

section Walk

variable {S : DmTree} {limit : Nat} (hS : SchemaOk limit S)

theorem walks_below {known : DmInstances → Prop} {depth : Nat} {path : Str} {leaf : NodeId}
    {inst t : DmInstances} (h : Walks S known depth path node inst leaf t p) :
    ∃ segs, Below S node segs ∧ p = goesOn path segs := by
  induction h with
  | @leaf _ path _ child _ hc hleaf =>
    refine ⟨_, .leaf hc hleaf, ?_⟩
    rw [goesOn, flatMap_singleton]
    rfl
  | object hc htype _ ih =>
    obtain ⟨segs, hbelow, rfl⟩ := ih
    exact ⟨_, .object hc htype hbelow, goesOn_appendName _ _ _⟩
  | table hc htype _ _ ih =>
    obtain ⟨segs, hbelow, rfl⟩ := ih
    exact ⟨_, .table hc htype hbelow, by rw [goesOn_appendName, goesOn_appendName]⟩

include hS

/-- Segments are no empty texts, and have no dots. -/
theorem Below.plain (h : Below S node segs) (hlt : node < S.nodes.length) :
    ∀ seg ∈ segs, seg ≠ [] ∧ '.' ∉ seg := by
  induction h with
  | leaf hc _ =>
    have hname := hS.child_name _ hlt _ hc
    exact List.forall_mem_singleton.mpr ⟨hname.1, hname.2.1⟩
  | object hc _ _ ih =>
    have hname := hS.child_name _ hlt _ hc
    exact List.forall_mem_cons.mpr ⟨⟨hname.1, hname.2.1⟩, ih (hS.child_bounds _ hlt _ hc).2⟩
  | table hc _ _ ih =>
    have hname := hS.child_name _ hlt _ hc
    refine List.forall_mem_cons.mpr ⟨⟨hname.1, hname.2.1⟩, List.forall_mem_cons.mpr
      ⟨⟨intDigits_ne_nil _, dot_not_mem_intDigits _⟩, ih (hS.child_bounds _ hlt _ hc).2⟩⟩

theorem child_of_name {c d : NodeId} (hlt : node < S.nodes.length)
    (hc : c ∈ (S.node node).childNodes) (hd : d ∈ (S.node node).childNodes)
    (hname : (S.node c).name = (S.node d).name) : c = d :=
  inj_on_of_nodup_map (hS.sibling_names node hlt) hc hd hname

/-- Nothing lies below what is no object. -/
theorem Below.unique {more : List Str} (h : Below S node segs) (hlt : node < S.nodes.length)
    (hmore : Below S node (segs ++ more)) : more = [] := by
  induction h with
  | @leaf node child hc hleaf =>
    generalize heq : [(S.node child).name] ++ more = all at hmore
    cases hmore with
    | leaf _ _ => exact (List.cons.inj heq).2
    | object hd htype _ =>
      obtain rfl := child_of_name hS hlt hc hd (List.cons.inj heq).1
      rw [htype] at hleaf
      cases hleaf
    | table hd htype _ =>
      obtain rfl := child_of_name hS hlt hc hd (List.cons.inj heq).1
      rw [htype] at hleaf
      cases hleaf
  | @object node child segs hc htype _ ih =>
    generalize heq : (S.node child).name :: segs ++ more = all at hmore
    cases hmore with
    | leaf hd hleaf =>
      obtain rfl := child_of_name hS hlt hc hd (List.cons.inj heq).1
      rw [htype] at hleaf
      cases hleaf
    | object hd _ hbelow =>
      obtain rfl := child_of_name hS hlt hc hd (List.cons.inj heq).1
      have htail : segs ++ more = _ := (List.cons.inj heq).2
      exact ih (hS.child_bounds _ hlt _ hc).2 (htail ▸ hbelow)
    | table hd htype' _ =>
      obtain rfl := child_of_name hS hlt hc hd (List.cons.inj heq).1
      rw [htype] at htype'
      cases htype'
  | @table node child n segs hc htype _ ih =>
    generalize heq : (S.node child).name :: intDigits n :: segs ++ more = all at hmore
    cases hmore with
    | leaf hd hleaf =>
      obtain rfl := child_of_name hS hlt hc hd (List.cons.inj heq).1
      rw [htype] at hleaf
      cases hleaf
    | object hd htype' _ =>
      obtain rfl := child_of_name hS hlt hc hd (List.cons.inj heq).1
      rw [htype] at htype'
      cases htype'
    | table hd _ hbelow =>
      obtain rfl := child_of_name hS hlt hc hd (List.cons.inj heq).1
      have htail : segs ++ more = _ := (List.cons.inj (List.cons.inj heq).2).2
      exact ih (hS.child_bounds _ hlt _ hc).2 (htail ▸ hbelow)

end Walk

/-! ## The paths of an end -/

/-- The segments below the object of a partial path, where a table without a number goes on
with one. -/
def BelowObject (S : DmTree) (node : NodeId) (isQualified : Bool) (segs : List Str) : Prop :=
  if isQualified then Below S node segs
  else ∃ n rest, segs = intDigits n :: rest ∧ Below S node rest

/-- What is found where an expression ends with the text. -/
def Finds (S : DmTree) (text p : Str) : Prop :=
  if text.getLast? = some '.' then
    ∃ node inst isQualified segs, getQualifiedNode S text.dropLast = some (node, inst, isQualified) ∧
      BelowObject S node isQualified segs ∧ p = goesOn text.dropLast segs
  else p = text

/-- The checks at the end let its path through. -/
def IsAdded (S : DmTree) (P : PermissionTable) (W : World) (rq : Request) (y : End) : Prop :=
  rq.wantsPaths = true ∧ ∃ properties a,
    getPathProperties S P W y.1 rq.role y.2.agent = some (.ok properties, a) ∧
      checkPathProperties rq.op properties = .ok true

section Paths

variable {S : DmTree} {P : PermissionTable} {W : World} {rq : Request}
  (hS : SchemaOk maxDmInstanceOrder S)

theorem partialFinds_finds {a : State} {e : Found} (hdot : text.getLast? = some '.')
    (h : PartialFinds S P rq text.dropLast a e) : Finds S text e.path := by
  rw [Finds, if_pos hdot]
  unfold PartialFinds at h
  split at h
  · exact h.elim
  · rename_i node inst isQualified hget
    obtain ⟨-, -, h⟩ := h
    cases isQualified with
    | true =>
      obtain ⟨segs, hbelow, hp⟩ := walks_below h.2.1
      exact ⟨node, inst, true, segs, hget, hbelow, hp⟩
    | false =>
      obtain ⟨n, -, h⟩ := h
      obtain ⟨segs, hbelow, hp⟩ := walks_below h.2.1
      exact ⟨node, inst, false, _, hget, ⟨n, segs, rfl, hbelow⟩, by rw [hp, goesOn_appendName]⟩

theorem finishPath_partially (hop : answersPartial rq.op = true) (hdot : text.getLast? = some '.') :
    finishPath S P W rq text = resolvePartialPath S P W rq text.dropLast := by
  rw [finishPath, if_neg (not_not.mpr hdot)]
  cases hop' : rq.op <;> simp_all [answersPartial]

theorem onAgent_ok {α : Type} {m : Op α} {s s' : RState} {x : α}
    (hrun : onAgent m s = some (.ok x, s')) :
    m s.agent = some (.ok x, s'.agent) ∧ s' = { s with agent := s'.agent } := by
  unfold onAgent at hrun
  obtain ⟨⟨r, a⟩, hm, heq⟩ := Option.map_eq_some_iff.mp hrun
  cases r with
  | error e => cases heq
  | ok x =>
    cases heq
    exact ⟨hm, rfl⟩

include hS

/-- What `AddPathFound` does to the vector, whatever its outcome. -/
theorem addPathFound_lists (hop : answersPartial rq.op = true) {path : Str} {s s' : RState}
    (hrun : addPathFound S P W rq path s = some (r, s')) :
    (∀ p ∈ s'.sv, p ∈ s.sv ∨ p = path ∧ IsAdded S P W rq (path, s)) ∧
      (r = .ok () → IsAdded S P W rq (path, s) → path ∈ s'.sv) := by
  obtain ⟨e, herror, rfl⟩ | ⟨properties, s₁, hproperties, hrest⟩ := bind_cases hrun
  · obtain ⟨a, -, rfl⟩ := onAgent_reads (getPathProperties_within hS P path rq.role) herror
    exact ⟨fun p hp => .inl hp, nofun⟩
  obtain ⟨hread, hsame⟩ := onAgent_ok hproperties
  rw [hsame] at hrest
  have hadded : IsAdded S P W rq (path, s) ↔
      rq.wantsPaths = true ∧ checkPathProperties rq.op properties = .ok true := by
    constructor
    · rintro ⟨hwants, properties', a', hread', hchecks⟩
      rw [hread] at hread'
      cases hread'
      exact ⟨hwants, hchecks⟩
    · exact fun ⟨hwants, hchecks⟩ => ⟨hwants, properties, _, hread, hchecks⟩
  rw [hadded]
  cases hchecks : checkPathProperties rq.op properties with
  | error e =>
    simp only [hchecks] at hrest
    cases hrest
    exact ⟨fun p hp => .inl hp, nofun⟩
  | ok addToVector =>
    simp only [hchecks] at hrest
    split at hrest
    · rename_i hnot
      cases hrest
      refine ⟨fun p hp => .inl hp, fun _ ⟨hwants, htrue⟩ => ?_⟩
      cases htrue
      exact absurd hnot (by simp [hwants])
    · rename_i hadd
      simp only [not_or, Bool.not_eq_false] at hadd
      have hsubs : ¬ ((rq.op = .subsAdd ∨ rq.op = .subsDel) ∧
          properties.flags.isObjectInstance = false) := by
        rintro ⟨hsubs | hsubs, -⟩ <;> rw [hsubs] at hop <;> cases hop
      have hinstances : rq.op ≠ .instances := fun hinst => by rw [hinst] at hop; cases hop
      rw [if_neg hsubs, if_neg hinstances] at hrest
      cases hrest
      simp only [hadd.1, hadd.2, and_self, and_true]
      split
      · rename_i hmem
        exact ⟨fun p hp => .inl hp, fun _ _ => hmem⟩
      · exact ⟨fun p hp => (List.mem_append.mp hp).imp_right List.mem_singleton.mp,
          fun _ _ => mem_append_right _ mem_cons_self⟩

/-- An end of the expression adds what is found there. -/
theorem finishPath_finds (hop : answersPartial rq.op = true) {s s' : RState}
    (hok : StateOk S s.agent) (hrun : finishPath S P W rq text s = some (r, s')) (hp : p ∈ s'.sv) :
    p ∈ s.sv ∨ Finds S text p := by
  by_cases hdot : text.getLast? = some '.'
  · rw [finishPath_partially hop hdot] at hrun
    have hadded := (resolvePartialPath_adds hS text.dropLast).added hok hrun
    exact (hadded.sound (Quiet.refl S _) hp).imp_right
      fun ⟨e, he, hpath⟩ => hpath ▸ partialFinds_finds hdot he
  · rw [finishPath, if_pos hdot] at hrun
    refine ((addPathFound_lists hS hop hrun).1 p hp).imp_right fun hpath => ?_
    rw [Finds, if_neg hdot]
    exact hpath.1

theorem passes_finds (hop : answersPartial rq.op = true) {well : Prop} {l : List End}
    {s s' : RState} (hpass : Passes S P W rq well s l s') (hok : StateOk S s.agent)
    (hp : p ∈ s'.sv) : p ∈ s.sv ∨ ∃ y ∈ l, Finds S y.1 p := by
  induction hpass with
  | reads hread =>
    obtain ⟨a, -, rfl⟩ := hread
    exact .inl hp
  | @step s t t' s' text r l hread hfinish _ _ ih =>
    obtain ⟨a, hq, rfl⟩ := hread
    have hok' : StateOk S t'.agent := ((finishPath_agentQuiet hS _).of_run hfinish).ok (hq.ok hok)
    rcases ih hok' hp with hmem | ⟨y, hy, hfinds⟩
    · refine (finishPath_finds hS hop (hq.ok hok) hfinish hmem).imp_right fun hfinds => ?_
      exact ⟨_, mem_cons_self, hfinds⟩
    · exact .inr ⟨y, mem_cons_of_mem _ hy, hfinds⟩

end Paths

theorem numbered_short {n : Int} (h : (numbered text n).length < maxDmPath - 1) :
    numbered text n = text ++ intDigits n := by
  rw [numbered, length_take] at h
  exact take_of_length_le (by omega)

/-- The texts of the ends fit in their buffers. -/
theorem endsAt_length {N : Type} {S : DmTree} {P : PermissionTable} {W : World} {V : ValueRules N}
    {rq : Request} {task : Task} {y : End} (h : EndsAt S P W V rq task y) :
    ∀ t u s, task = .expansion rq t u s → t.length ≤ maxDmPath - 1 →
      y.1.length ≤ maxDmPath - 1 := by
  induction h using Relation.ReflTransGen.head_induction_on with
  | refl =>
    rintro t u s heq hlen
    cases heq
    exact hlen
  | head hstep _ ih =>
    rintro t u s rfl _
    cases hstep with
    | literal _ _ _ hlt => exact ih _ _ _ rfl (by rw [length_append, length_singleton]; omega)
    | wildcard _ _ _ hlt => exact ih _ _ _ rfl (Nat.le_of_lt hlt)
    | reference _ _ hlt => exact ih _ _ _ rfl (Nat.le_of_lt hlt)
    | search _ _ _ _ _ _ _ _ hlt => exact ih _ _ _ rfl (Nat.le_of_lt hlt)

section Objects

variable {S : DmTree} {limit : Nat} (hS : SchemaOk limit S)

include hS

variable {isQualified : Bool}

theorem BelowObject.plain (h : BelowObject S node isQualified segs) (hlt : node < S.nodes.length) :
    ∀ seg ∈ segs, seg ≠ [] ∧ '.' ∉ seg := by
  unfold BelowObject at h
  split at h
  · exact h.plain hS hlt
  · obtain ⟨n, rest, rfl, h⟩ := h
    exact List.forall_mem_cons.mpr
      ⟨⟨intDigits_ne_nil n, dot_not_mem_intDigits n⟩, h.plain hS hlt⟩

theorem BelowObject.unique {more : List Str} (h : BelowObject S node isQualified segs)
    (hlt : node < S.nodes.length) (hmore : BelowObject S node isQualified (segs ++ more)) :
    more = [] := by
  unfold BelowObject at h hmore
  split at h
  · rename_i hq
    rw [if_pos hq] at hmore
    exact h.unique hS hlt hmore
  · rename_i hq
    obtain ⟨n, rest, rfl, h⟩ := h
    rw [if_neg hq] at hmore
    obtain ⟨m, rest', heq, hmore⟩ := hmore
    have htail : rest ++ more = rest' := (List.cons.inj heq).2
    exact h.unique hS hlt (htail ▸ hmore)

omit hS in
theorem BelowObject.ne_nil (h : BelowObject S node isQualified segs) : segs ≠ [] := by
  unfold BelowObject at h
  split at h
  · cases h <;> exact cons_ne_nil _ _
  · obtain ⟨n, rest, rfl, -⟩ := h
    exact cons_ne_nil _ _

end Objects

/-- So do the paths that are found there. -/
theorem finds_length {S : DmTree} (h : Finds S text p) (hlen : text.length ≤ maxDmPath - 1) :
    p.length ≤ maxDmPath - 1 := by
  unfold Finds at h
  split at h
  · obtain ⟨node, inst, isQualified, segs, -, -, rfl⟩ := h
    exact length_take_le _ _
  · exact h ▸ hlen

/-! ## The paths of an expression -/

section Resolution

variable {N : Type} {S : DmTree} {P : PermissionTable} {W : World} {V : ValueRules N}
  {rq : Request} {fuel : Nat} {path : Str} {s s' : RState}

/-- A path that passes the checks is resolved. -/
theorem resolveDevicePath_cases (hrun : resolveDevicePath S P W rq V fuel path s = some (r, s')) :
    s' = s ∧ r ≠ .ok () ∨ "Device.".toList.isPrefixOf path = true ∧
      resolvePath S P W V fuel rq path s = some (r, s') := by
  have hfails : ∀ e, failWith e s = some (r, s') → s' = s ∧ r ≠ .ok () := by
    rintro e ⟨⟩
    exact ⟨rfl, nofun⟩
  unfold resolveDevicePath at hrun
  split at hrun
  · exact .inl (hfails _ hrun)
  · rename_i hstarts
    rw [Bool.not_eq_false] at hstarts
    split at hrun
    · split at hrun
      · exact .inl (hfails _ hrun)
      · exact .inr ⟨hstarts, hrun⟩
    · split at hrun
      · exact .inl (hfails _ hrun)
      · exact .inr ⟨hstarts, hrun⟩

theorem resolveDevicePath_ok
    (hrun : resolveDevicePath S P W rq V fuel path s = some (.ok (), s')) :
    "Device.".toList.isPrefixOf path = true ∧
      resolvePath S P W V fuel rq path s = some (.ok (), s') :=
  (resolveDevicePath_cases hrun).resolve_left fun h => h.2 rfl

theorem resolveDevicePath_visits (hS : SchemaOk maxDmInstanceOrder S)
    (hrun : resolveDevicePath S P W rq V fuel path s = some (r, s')) :
    Visits S P W rq s (ComesTo S P W V rq path s) r s' := by
  rcases resolveDevicePath_cases hrun with ⟨rfl, hr⟩ | ⟨-, hresolve⟩
  · exact visits_none ((readsOnly_frame S).refl _) fun hok => absurd hok hr
  · exact resolvePath_visits hS hresolve

/-- Every path that is added is found at an end that the resolution comes to. -/
theorem resolvePath_finds (hS : SchemaOk maxDmInstanceOrder S) (hop : answersPartial rq.op = true)
    (hok : StateOk S s.agent) (hrun : resolvePath S P W V fuel rq path s = some (.ok (), s'))
    (hp : p ∈ s'.sv) : p ∈ s.sv ∨
      ∃ y, ComesTo S P W V rq path s y ∧ y.1.length ≤ maxDmPath - 1 ∧ Finds S y.1 p := by
  obtain ⟨l, hpass, hl, -⟩ := resolvePath_visits hS hrun
  refine (passes_finds hS hop hpass hok hp).imp_right ?_
  rintro ⟨y, hy, hfinds⟩
  have hcomes := hl y hy
  exact ⟨y, hcomes, endsAt_length hcomes.2 _ _ _ rfl (Nat.zero_le _), hfinds⟩

end Resolution

end FoundPaths
