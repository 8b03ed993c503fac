import SdtTr369.SubsRetry

/-!
# Object creations and deletions

`device_subscription.c`: the objects that committed operations and refreshes add
and delete are queued, and matched with the reference lists of the subscriptions
at the next processing call. `δ` is all that a resolution reads; `resolve` is
what it finds there. A resolution can refresh tables: the `Refresh`es it causes
come from outside.
-/

namespace LifeEvents

open UspTypes SubsRetry List
open RunHistory (run run_cons run_induction)

variable {δ : Type}

/-- The fields of `subs_t` that its resolutions read. -/
structure SubsSettings where
  inst : Nat
  contInstance : Nat
  enable : Bool
  notifyType : SubsNotify
  pathExpressions : List Str
  deriving DecidableEq, Repr

/-- The fields of `subs_t` for life events, with what `resolvedPaths` was resolved
from: the reference list and the data model, each time. -/
structure LifeSubs (δ : Type) where
  settings : SubsSettings
  resolvedPaths : List Str
  resolvedIn : List (SubsSettings × δ)
  deriving DecidableEq

inductive Source where
  | committed
  | refreshed
  deriving DecidableEq, Repr

/-- `obj_life_event_t`, with where it comes from and, for a deletion, the data
model just before it, for a creation just after it. -/
structure LifeEvent (δ : Type) where
  objPath : Str
  notifyType : SubsNotify
  source : Source
  happened : δ

/-- An addition or a deletion that the current transaction has logged. -/
structure LogEntry (δ : Type) where
  objPath : Str
  isAdd : Bool
  happened : δ

/-- What `RefreshInstVector` finds to be new and gone, and the data model with it. -/
structure Refresh (δ : Type) where
  created : List Str
  deleted : List Str
  next : δ

structure State (δ : Type) where
  dataModel : δ
  subscriptions : List (LifeSubs δ)
  objectLifeEvents : List (LifeEvent δ)
  objectDeletionPathsResolved : Bool
  curTransaction : Option (List (LogEntry δ))
  sent : List (Nat × LifeEvent δ)

def initialState (dataModel : δ) : State δ := ⟨dataModel, [], [], false, none, []⟩

/-- The refreshes that the resolution for a subscription causes. -/
abbrev Refreshing (δ : Type) := Nat → List (Refresh δ)

def isActive (notifyType : SubsNotify) (sub : LifeSubs δ) : Bool :=
  sub.settings.enable && sub.settings.notifyType = notifyType

def LogEntry.event (entry : LogEntry δ) : LifeEvent δ :=
  ⟨entry.objPath, if entry.isAdd then .objectCreation else .objectDeletion, .committed,
    entry.happened⟩

/-- `STR_VECTOR_Add_IfNotExist` for each path. -/
def addMissing (paths : List Str) (found : List Str) : List Str :=
  found.foldl (fun paths p => if p ∈ paths then paths else paths ++ [p]) paths

/-- The vector of resolved paths is destroyed. -/
def LifeSubs.cleared (sub : LifeSubs δ) : LifeSubs δ :=
  { sub with resolvedPaths := [], resolvedIn := [] }

def modifySubs (i : Nat) (f : LifeSubs δ → LifeSubs δ) (s : State δ) : State δ :=
  { s with subscriptions := s.subscriptions.modify i f }

variable (resolve : SubsSettings → δ → List Str)

/-- What the reference list resolves to is added to the vector. -/
def LifeSubs.resolved (d : δ) (sub : LifeSubs δ) : LifeSubs δ :=
  { sub with
    resolvedPaths := addMissing sub.resolvedPaths (resolve sub.settings d)
    resolvedIn := sub.resolvedIn ++ [(sub.settings, d)] }

/-- `DEVICE_SUBSCRIPTION_ResolveObjectDeletionPaths` inside of a refresh, where no
other table is refreshed. -/
def resolveWithoutRefresh (s : State δ) : State δ :=
  if s.objectDeletionPathsResolved then s
  else { s with
    subscriptions := s.subscriptions.map fun sub =>
      if isActive .objectDeletion sub then sub.cleared.resolved resolve s.dataModel else sub
    objectDeletionPathsResolved := true }

/-- `DEVICE_SUBSCRIPTION_NotifyObjectLifeEvent` for each of the paths. -/
def queueRefreshed (notifyType : SubsNotify) (happened : δ) (paths : List Str) (s : State δ) :
    State δ :=
  { s with objectLifeEvents := s.objectLifeEvents ++
      paths.map fun p => ⟨p, notifyType, .refreshed, happened⟩ }

/-- `RefreshInstVector` behind its vendor callback. -/
def refreshInstVector (s : State δ) (r : Refresh δ) : State δ :=
  let before := s.dataModel
  let s := queueRefreshed .objectCreation r.next r.created s
  let s := if r.deleted = [] then s
    else queueRefreshed .objectDeletion before r.deleted (resolveWithoutRefresh resolve s)
  { s with dataModel := r.next }

/-- `ResolveAllPathExpressions` into the vector of the subscription. -/
def resolveAllPathExpressions (E : Refreshing δ) (i : Nat) (s : State δ) : State δ :=
  let s := modifySubs i LifeSubs.cleared s
  let s := (E i).foldl (refreshInstVector resolve) s
  modifySubs i (LifeSubs.resolved resolve s.dataModel) s

/-- One turn of the loop of `DEVICE_SUBSCRIPTION_ResolveObjectDeletionPaths`. -/
def resolveDeletionPathsOf (E : Refreshing δ) (s : State δ) (i : Nat) : State δ :=
  if s.subscriptions[i]?.any (isActive .objectDeletion) then resolveAllPathExpressions resolve E i s
  else s

/-- `DEVICE_SUBSCRIPTION_ResolveObjectDeletionPaths`. -/
def resolveObjectDeletionPaths (E : Refreshing δ) (s : State δ) : State δ :=
  if s.objectDeletionPathsResolved then s
  else
    let s := (List.range s.subscriptions.length).foldl (resolveDeletionPathsOf resolve E) s
    { s with objectDeletionPathsResolved := true }

/-- The part of `ProcessObjectLifeEventSubscription` before its loop. -/
def resolveCreationPaths (E : Refreshing δ) (i : Nat) (sub : LifeSubs δ) (s : State δ) :
    State δ :=
  if sub.settings.notifyType = .objectCreation then resolveAllPathExpressions resolve E i s else s

/-- The loop of `ProcessObjectLifeEventSubscription`: the events for which a
notification is sent. -/
def matchedEvents (sub : LifeSubs δ) (events : List (LifeEvent δ)) : List (LifeEvent δ) :=
  events.filter fun ole =>
    ole.notifyType = sub.settings.notifyType && ole.objPath ∈ sub.resolvedPaths

/-- `ProcessObjectLifeEventSubscription`. -/
def processObjectLifeEventSubscription (E : Refreshing δ) (i : Nat) (sub : LifeSubs δ)
    (s : State δ) : State δ :=
  let s := if s.objectLifeEvents = [] then s
    else
      let s := resolveCreationPaths resolve E i sub s
      let notified := (s.subscriptions[i]?.map fun sub =>
        matchedEvents sub s.objectLifeEvents).getD []
      { s with sent := s.sent ++ notified.map fun ole => (i, ole) }
  modifySubs i LifeSubs.cleared s

/-- One turn of the loop of `DEVICE_SUBSCRIPTION_ProcessAllObjectLifeEventSubscriptions`. -/
def processOne (E : Refreshing δ) (s : State δ) (i : Nat) : State δ :=
  match s.subscriptions[i]? with
  | none => s
  | some sub =>
    if isActive .objectCreation sub || isActive .objectDeletion sub then
      processObjectLifeEventSubscription resolve E i sub s
    else s

/-- `DEVICE_SUBSCRIPTION_ProcessAllObjectLifeEventSubscriptions`. -/
def processAll (E : Refreshing δ) (s : State δ) : State δ :=
  let s := (List.range s.subscriptions.length).foldl (processOne resolve E) s
  { s with objectLifeEvents := [], objectDeletionPathsResolved := false }

/-! ## Steps -/

/-- The changes that the notify functions of the Subscription table make. -/
inductive SubsChange where
  | added (settings : SubsSettings)
  | deleted (inst : Nat)
  | set (inst : Nat) (settings : SubsSettings)

def changeSubs : SubsChange → List (LifeSubs δ) → List (LifeSubs δ)
  | .added settings, subs => subs ++ [⟨settings, [], []⟩]
  | .deleted inst, subs => subs.eraseP fun sub => sub.settings.inst = inst
  | .set inst settings, subs =>
    subs.map fun sub => if sub.settings.inst = inst then { sub with settings := settings } else sub

/-- What the data-model thread does between two processing calls, and these. The
operations of notify functions are those of the transaction that the commit
starts for them. -/
inductive LifeStep (δ : Type) where
  | start
  | add (objPath : Str) (next : δ)
  | del (E : Refreshing δ) (objPath : Str) (next : δ)
  | update (next : δ)
  | commit
  | abort (restored : δ)
  | refresh (r : Refresh δ)
  | subsChange (c : SubsChange)
  | process (E : Refreshing δ)

/-- `DM_TRANS_Add`, which asserts that a transaction is open. -/
def transAdd (entry : LogEntry δ) (s : State δ) : Option (State δ) :=
  s.curTransaction.map fun log => { s with curTransaction := some (log ++ [entry]) }

/-- The part of `DM_TRANS_Commit` that queues the events. It asserts that the
paths of a deletion are resolved. -/
def transCommit (s : State δ) : Option (State δ) :=
  match s.curTransaction with
  | none => some s
  | some [] => some { s with curTransaction := none }
  | some log =>
    if log.any (fun entry => !entry.isAdd) && !s.objectDeletionPathsResolved then none
    else some { s with
      curTransaction := some []
      objectLifeEvents := s.objectLifeEvents ++ log.map LogEntry.event }

def lifeStep (step : LifeStep δ) (s : State δ) : Option (State δ) :=
  match step with
  | .start => some { s with curTransaction := s.curTransaction.or (some []) }
  | .add objPath next => transAdd ⟨objPath, true, next⟩ { s with dataModel := next }
  | .del E objPath next =>
    let s := resolveObjectDeletionPaths resolve E s
    (transAdd ⟨objPath, false, s.dataModel⟩ s).map fun s => { s with dataModel := next }
  | .update next => some { s with dataModel := next }
  | .commit => transCommit s
  | .abort restored =>
    some (if s.curTransaction = none then s
      else { s with curTransaction := none, dataModel := restored })
  | .refresh r => some (refreshInstVector resolve s r)
  | .subsChange c => some { s with subscriptions := changeSubs c s.subscriptions }
  | .process E => some (processAll resolve E s)

/-! ## What a resolution leaves alone -/

/-- A path is in the vector if and only if the reference list resolved to it at one
of the times that are recorded. -/
def LifeSubs.Recorded (sub : LifeSubs δ) : Prop :=
  ∀ p, p ∈ sub.resolvedPaths ↔ ∃ r ∈ sub.resolvedIn, p ∈ resolve r.1 r.2

/-- What the refreshes of a resolution leave: they queue events. -/
structure Refreshes (s s' : State δ) : Prop where
  settings : s'.subscriptions.map (·.settings) = s.subscriptions.map (·.settings)
  recorded : (∀ sub ∈ s.subscriptions, sub.Recorded resolve) →
    ∀ sub ∈ s'.subscriptions, sub.Recorded resolve
  deletions : s.objectDeletionPathsResolved = true → s'.objectDeletionPathsResolved = true
  events : ∃ refreshed, s'.objectLifeEvents = s.objectLifeEvents ++ refreshed ∧
    ∀ ole ∈ refreshed, ole.source = .refreshed

/-- A resolution changes the vectors of resolved paths. -/
structure Resolves (s s' : State δ) : Prop extends Refreshes resolve s s' where
  sent : s'.sent = s.sent
  log : s'.curTransaction = s.curTransaction

variable {resolve}

theorem LifeSubs.Recorded.cleared (sub : LifeSubs δ) : sub.cleared.Recorded resolve := by
  intro p
  simp [LifeSubs.cleared]

theorem mem_addMissing (paths found : List Str) (p : Str) :
    p ∈ addMissing paths found ↔ p ∈ paths ∨ p ∈ found := by
  induction found generalizing paths with
  | nil => simp [addMissing]
  | cons q found ih =>
    have hcons : addMissing paths (q :: found) =
        addMissing (if q ∈ paths then paths else paths ++ [q]) found := rfl
    rw [hcons, ih]
    split
    · grind
    · grind

variable {sub : LifeSubs δ} (s : State δ) {s' : State δ} (i : Nat) (E : Refreshing δ)
  {subs : List (LifeSubs δ)} {j : Nat}

theorem LifeSubs.Recorded.resolved (h : sub.Recorded resolve) (d : δ) :
    (sub.resolved resolve d).Recorded resolve := by
  intro p
  simp only [LifeSubs.resolved, mem_addMissing, h p, mem_append, mem_singleton]
  constructor
  · rintro (⟨r, hr, hp⟩ | hp)
    · exact ⟨r, .inl hr, hp⟩
    · exact ⟨_, .inr rfl, hp⟩
  · rintro ⟨r, hr | rfl, hp⟩
    · exact .inl ⟨r, hr, hp⟩
    · exact .inr hp

theorem Resolves.refl : Resolves resolve s s :=
  ⟨⟨rfl, id, id, ⟨[], by simp, by simp⟩⟩, rfl, rfl⟩

variable {s'' : State δ} (notifyType : SubsNotify) {subs' : List (LifeSubs δ)}
  (refreshes : List (Refresh δ)) {step : LifeStep δ}

theorem Refreshes.trans {s : State δ} (h : Refreshes resolve s s')
    (h' : Refreshes resolve s' s'') : Refreshes resolve s s'' where
  settings := h'.settings.trans h.settings
  recorded := h'.recorded ∘ h.recorded
  deletions := h'.deletions ∘ h.deletions
  events := by
    obtain ⟨refreshed, hevents, hsource⟩ := h.events
    obtain ⟨refreshed', hevents', hsource'⟩ := h'.events
    refine ⟨refreshed ++ refreshed', by rw [hevents', hevents, append_assoc], ?_⟩
    intro ole hole
    exact (List.mem_append.mp hole).elim (hsource ole) (hsource' ole)

theorem Resolves.trans {s : State δ} (h : Resolves resolve s s') (h' : Resolves resolve s' s'') :
    Resolves resolve s s'' :=
  ⟨h.toRefreshes.trans h'.toRefreshes, h'.sent.trans h.sent, h'.log.trans h.log⟩

theorem resolves_foldl {α : Type} {f : State δ → α → State δ}
    (hf : ∀ s a, Resolves resolve s (f s a)) (l : List α) (s : State δ) :
    Resolves resolve s (l.foldl f s) := by
  induction l generalizing s with
  | nil => exact Resolves.refl s
  | cons a l ih => exact (hf s a).trans (ih (f s a))

theorem modify_settings (subs : List (LifeSubs δ)) (i : Nat) {f : LifeSubs δ → LifeSubs δ}
    (hf : ∀ sub, (f sub).settings = sub.settings) :
    (subs.modify i f).map (·.settings) = subs.map (·.settings) := by
  induction subs generalizing i with
  | nil => simp
  | cons sub subs ih =>
    cases i with
    | zero => simp [hf]
    | succ i => simp [ih]

theorem modifySubs_resolves (f : LifeSubs δ → LifeSubs δ)
    (hf : ∀ sub, (f sub).settings = sub.settings)
    (hrecorded : ∀ sub, sub.Recorded resolve → (f sub).Recorded resolve) (s : State δ) :
    Resolves resolve s (modifySubs i f s) := by
  refine ⟨⟨modify_settings s.subscriptions i hf, fun h sub hsub => ?_, id,
    ⟨[], by simp [modifySubs], by simp⟩⟩, rfl, rfl⟩
  obtain ⟨j, hj⟩ := mem_iff_getElem?.mp hsub
  rw [modifySubs, getElem?_modify, Option.map_eq_map, Option.map_eq_some_iff] at hj
  obtain ⟨old, hold, rfl⟩ := hj
  have hr := h old (mem_of_getElem? hold)
  split
  · exact hrecorded old hr
  · exact hr

theorem cleared_resolves (s : State δ) : Resolves resolve s (modifySubs i LifeSubs.cleared s) :=
  modifySubs_resolves i LifeSubs.cleared (fun _ => rfl) (fun sub _ => .cleared sub) s

theorem queueRefreshed_resolves (happened : δ) (paths : List Str) (s : State δ) :
    Resolves resolve s (queueRefreshed notifyType happened paths s) := by
  refine ⟨⟨rfl, id, id, ⟨_, rfl, ?_⟩⟩, rfl, rfl⟩
  intro ole hole
  obtain ⟨p, -, rfl⟩ := List.mem_map.mp hole
  rfl

variable (resolve)

theorem resolveWithoutRefresh_resolves : Resolves resolve s (resolveWithoutRefresh resolve s) := by
  unfold resolveWithoutRefresh
  split
  · exact Resolves.refl s
  · refine ⟨⟨?_, fun h sub hsub => ?_, fun _ => rfl, ⟨[], by simp, by simp⟩⟩, rfl, rfl⟩
    · rw [map_map]
      apply map_congr_left
      intro sub _
      simp only [Function.comp]
      split <;> rfl
    · obtain ⟨old, hold, rfl⟩ := List.mem_map.mp hsub
      split
      · exact (LifeSubs.Recorded.cleared old).resolved s.dataModel
      · exact h old hold

theorem refreshInstVector_resolves (r : Refresh δ) :
    Resolves resolve s (refreshInstVector resolve s r) := by
  have hcreated : Resolves resolve s _ := queueRefreshed_resolves .objectCreation r.next r.created s
  have hnext : ∀ t : State δ, Resolves resolve s t →
      Resolves resolve s { t with dataModel := r.next } :=
    fun t h => ⟨⟨h.settings, h.recorded, h.deletions, h.events⟩, h.sent, h.log⟩
  apply hnext
  split
  · exact hcreated
  · exact (hcreated.trans (resolveWithoutRefresh_resolves resolve _)).trans
      (queueRefreshed_resolves _ _ _ _)

theorem resolveAllPathExpressions_resolves (i : Nat) (s : State δ) :
    Resolves resolve s (resolveAllPathExpressions resolve E i s) :=
  ((cleared_resolves i s).trans
    (resolves_foldl (refreshInstVector_resolves resolve) (E i) _)).trans
      (modifySubs_resolves i (LifeSubs.resolved resolve _) (fun _ => rfl) (fun _ h => h.resolved _) _)

theorem resolveObjectDeletionPaths_resolves (s : State δ) :
    Resolves resolve s (resolveObjectDeletionPaths resolve E s) := by
  unfold resolveObjectDeletionPaths
  split
  · exact Resolves.refl s
  · have hloop : Resolves resolve s
        ((List.range s.subscriptions.length).foldl (resolveDeletionPathsOf resolve E) s) := by
      apply resolves_foldl
      intro t i
      unfold resolveDeletionPathsOf
      split
      · exact resolveAllPathExpressions_resolves resolve E i t
      · exact Resolves.refl t
    exact ⟨⟨hloop.settings, hloop.recorded, fun _ => rfl, hloop.events⟩, hloop.sent, hloop.log⟩

theorem resolveCreationPaths_resolves (i : Nat) (sub : LifeSubs δ) (s : State δ) :
    Resolves resolve s (resolveCreationPaths resolve E i sub s) := by
  unfold resolveCreationPaths
  split
  · exact resolveAllPathExpressions_resolves resolve E i s
  · exact Resolves.refl s

/-! ## The processing call -/

/-- The events that a subscription has sent notifications for. -/
def notifiedBy (i : Nat) (s : State δ) : List (LifeEvent δ) :=
  (s.sent.filter fun notification => notification.1 = i).map (·.2)

/-- The state when it is the turn of a subscription. -/
def stateAtTurn (E : Refreshing δ) (s : State δ) (i : Nat) : State δ :=
  (List.range i).foldl (processOne resolve E) s

/-- The paths that a subscription is matched with. -/
def pathsAtProcessing (E : Refreshing δ) (s : State δ) (i : Nat) : List Str :=
  ((stateAtTurn resolve E s i).subscriptions[i]?.bind fun sub =>
    (resolveCreationPaths resolve E i sub (stateAtTurn resolve E s i)).subscriptions[i]?.map
      (·.resolvedPaths)).getD []

variable {resolve}

/-- No refresh resolves the subscription again. -/
def Settled (s : State δ) (sub : LifeSubs δ) : Prop :=
  s.objectDeletionPathsResolved = true ∨ isActive .objectDeletion sub = false

theorem Settled.after {s : State δ} (h : Settled s sub)
    (hs : s.objectDeletionPathsResolved = true → s'.objectDeletionPathsResolved = true) :
    Settled s' sub :=
  h.imp_left hs

variable (resolve)

/-- What the turn of one subscription leaves for the others. -/
structure Turn (i : Nat) (s s' : State δ) : Prop extends Refreshes resolve s s' where
  others : ∀ j, j ≠ i → notifiedBy j s' = notifiedBy j s

variable {resolve}

theorem Resolves.turn {i : Nat} {s : State δ} (h : Resolves resolve s s') : Turn resolve i s s' :=
  ⟨h.toRefreshes, fun j _ => by rw [notifiedBy, notifiedBy, h.sent]⟩

theorem Turn.trans {i : Nat} {s : State δ} (h : Turn resolve i s s') (h' : Turn resolve i s' s'') :
    Turn resolve i s s'' :=
  ⟨h.toRefreshes.trans h'.toRefreshes, fun j hj => (h'.others j hj).trans (h.others j hj)⟩

theorem notifiedBy_append (j : Nat) (s : State δ) (events : List (LifeEvent δ)) :
    notifiedBy i { s with sent := s.sent ++ events.map fun ole => (j, ole) } =
      notifiedBy i s ++ if j = i then events else [] := by
  simp only [notifiedBy, filter_append, map_append, append_cancel_left_eq]
  by_cases hji : j = i
  · simp [hji, filter_map, Function.comp_def]
  · simp [hji, filter_map, Function.comp_def]

theorem notified_turn (s : State δ) (events : List (LifeEvent δ)) :
    Turn resolve i s { s with sent := s.sent ++ events.map fun ole => (i, ole) } := by
  refine ⟨⟨rfl, id, id, ⟨[], by simp, by simp⟩⟩, fun j hj => ?_⟩
  rw [notifiedBy_append, if_neg hj.symm, append_nil]

variable (resolve)

theorem processOne_turn (s : State δ) (i : Nat) : Turn resolve i s (processOne resolve E s i) := by
  unfold processOne
  cases hsub : s.subscriptions[i]? with
  | none => exact (Resolves.refl s).turn
  | some sub =>
    dsimp only
    split
    swap
    · exact (Resolves.refl s).turn
    dsimp only [processObjectLifeEventSubscription]
    split
    · exact (cleared_resolves i s).turn
    · exact ((resolveCreationPaths_resolves resolve E i sub s).turn.trans
        (notified_turn i _ _)).trans (cleared_resolves i _).turn

theorem stateAtTurn_succ (s : State δ) (i : Nat) :
    stateAtTurn resolve E s (i + 1) = processOne resolve E (stateAtTurn resolve E s i) i := by
  rw [stateAtTurn, range_succ, foldl_append]
  rfl

theorem stateAtTurn_settings (s : State δ) (i : Nat) :
    (stateAtTurn resolve E s i).subscriptions.map (·.settings) =
      s.subscriptions.map (·.settings) := by
  induction i with
  | zero => rfl
  | succ i ih => rw [stateAtTurn_succ, (processOne_turn resolve E _ i).settings, ih]

theorem stateAtTurn_events (s : State δ) (i : Nat) :
    ∃ refreshed, (stateAtTurn resolve E s i).objectLifeEvents = s.objectLifeEvents ++ refreshed ∧
      ∀ ole ∈ refreshed, ole.source = .refreshed := by
  induction i with
  | zero => exact ⟨[], by simp [stateAtTurn], by simp⟩
  | succ i ih =>
    obtain ⟨refreshed, hevents, hsource⟩ := ih
    obtain ⟨refreshed', hevents', hsource'⟩ :=
      (processOne_turn resolve E (stateAtTurn resolve E s i) i).events
    rw [stateAtTurn_succ]
    refine ⟨refreshed ++ refreshed', by rw [hevents', hevents, append_assoc], ?_⟩
    intro ole hole
    exact (List.mem_append.mp hole).elim (hsource ole) (hsource' ole)

theorem stateAtTurn_queue {s : State δ} (hqueue : s.objectLifeEvents ≠ []) (i : Nat) :
    (stateAtTurn resolve E s i).objectLifeEvents ≠ [] := by
  obtain ⟨refreshed, hevents, -⟩ := stateAtTurn_events resolve E s i
  rw [hevents]
  exact fun h => hqueue (List.append_eq_nil_iff.mp h).1

/-- Only its own turn notifies for a subscription. -/
theorem notifiedBy_stateAtTurn (s : State δ) (i : Nat) :
    (∀ n ≤ i, notifiedBy i (stateAtTurn resolve E s n) = notifiedBy i s) ∧
      ∀ n > i, notifiedBy i (stateAtTurn resolve E s n) =
        notifiedBy i (stateAtTurn resolve E s (i + 1)) := by
  constructor
  · intro n hn
    induction n with
    | zero => rfl
    | succ n ih =>
      rw [stateAtTurn_succ, (processOne_turn resolve E _ n).others i (by omega), ih (by omega)]
  · intro n hn
    induction n with
    | zero => omega
    | succ n ih =>
      by_cases hni : n = i
      · rw [hni]
      · rw [stateAtTurn_succ, (processOne_turn resolve E _ n).others i (fun h => hni h.symm),
          ih (by omega)]

theorem stateAtTurn_recorded {s : State δ} (h : ∀ sub ∈ s.subscriptions, sub.Recorded resolve)
    (n : Nat) : ∀ sub ∈ (stateAtTurn resolve E s n).subscriptions, sub.Recorded resolve := by
  induction n with
  | zero => exact h
  | succ n ih =>
    rw [stateAtTurn_succ]
    exact (processOne_turn resolve E _ n).recorded ih

theorem getElem?_settings (h : subs'.map (·.settings) = subs.map (·.settings))
    (hsub : subs[i]? = some sub) :
    ∃ sub', subs'[i]? = some sub' ∧ sub'.settings = sub.settings := by
  have hi := congrArg (·[i]?) h
  simp only [getElem?_map, hsub, Option.map_some, Option.map_eq_some_iff] at hi
  exact hi

def IsLifeSubs (sub : LifeSubs δ) : Bool :=
  isActive .objectCreation sub || isActive .objectDeletion sub

/-- A processing call notifies, for the events of the kind of the subscription,
those whose path it is matched with. -/
theorem processAll_notifies (s : State δ) {i : Nat} (hsub : s.subscriptions[i]? = some sub)
    (hactive : IsLifeSubs sub = true) :
    ∃ refreshed : List (LifeEvent δ), (∀ ole ∈ refreshed, ole.source = .refreshed) ∧
      notifiedBy i (processAll resolve E s) = notifiedBy i s ++
        (s.objectLifeEvents ++ refreshed).filter fun ole =>
          ole.notifyType = sub.settings.notifyType &&
            ole.objPath ∈ pathsAtProcessing resolve E s i := by
  have hlt : i < s.subscriptions.length := (List.getElem?_eq_some_iff.mp hsub).1
  obtain ⟨hbefore, hafter⟩ := notifiedBy_stateAtTurn resolve E s i
  have hall : notifiedBy i (processAll resolve E s) =
      notifiedBy i (processOne resolve E (stateAtTurn resolve E s i) i) := by
    rw [← stateAtTurn_succ, ← hafter _ hlt]
    rfl
  obtain ⟨refreshed, hevents, hsource⟩ := stateAtTurn_events resolve E s i
  obtain ⟨sub', hsub', hsettings'⟩ :=
    getElem?_settings i (stateAtTurn_settings resolve E s i) hsub
  rw [hall]
  rw [← hbefore i le_rfl]
  unfold pathsAtProcessing
  generalize stateAtTurn resolve E s i = t at *
  have hactive' : (isActive .objectCreation sub' || isActive .objectDeletion sub') = true := by
    simpa [IsLifeSubs, isActive, hsettings'] using hactive
  simp only [processOne, hsub', hactive', if_true, processObjectLifeEventSubscription]
  by_cases hempty : t.objectLifeEvents = []
  · rw [hempty] at hevents
    obtain ⟨hs, hrefreshed⟩ := List.append_eq_nil_iff.mp hevents.symm
    refine ⟨[], by simp, ?_⟩
    rw [if_pos hempty, hs]
    simp [notifiedBy, modifySubs]
  · rw [if_neg hempty]
    have hresolve := resolveCreationPaths_resolves resolve E i sub' t
    obtain ⟨sub'', hsub'', hsettings''⟩ := getElem?_settings i hresolve.settings hsub'
    obtain ⟨refreshed', hevents', hsource'⟩ := hresolve.events
    refine ⟨refreshed ++ refreshed', fun ole hole => ?_, ?_⟩
    · exact (List.mem_append.mp hole).elim (hsource ole) (hsource' ole)
    · have hnotified := notifiedBy_append i i (resolveCreationPaths resolve E i sub' t)
        (matchedEvents sub'' (resolveCreationPaths resolve E i sub' t).objectLifeEvents)
      rw [if_pos rfl, notifiedBy, notifiedBy, hresolve.sent] at hnotified
      simp only [hsub'', Option.map_some, Option.getD_some, Option.bind_some, modifySubs]
      rw [notifiedBy, hresolve.sent, hnotified, matchedEvents, hevents', hevents, hsettings'',
        hsettings', append_assoc]
      rfl

/-! ## What a subscription is matched with -/

/-- The data model after refreshes. -/
def dataModelAfter (refreshes : List (Refresh δ)) (d : δ) : δ :=
  refreshes.foldl (fun _ r => r.next) d

/-- The data model after the first `n` turns of a processing call: those of active
creation subscriptions cause refreshes. -/
def dataModelAfterTurns (E : Refreshing δ) (s : State δ) (n : Nat) : δ :=
  (List.range n).foldl (fun d j =>
    if s.subscriptions[j]?.any (isActive .objectCreation) then dataModelAfter (E j) d else d)
    s.dataModel

/-- The reference list of a creation subscription names the object in the data model
after its own refreshes; that of a deletion subscription named it when its paths were
resolved. -/
def IsReferenced (E : Refreshing δ) (s : State δ) (i : Nat) (sub : LifeSubs δ) (p : Str) : Prop :=
  if sub.settings.notifyType = .objectCreation then
    p ∈ resolve sub.settings (dataModelAfterTurns E s (i + 1))
  else ∃ r ∈ sub.resolvedIn, p ∈ resolve r.1 r.2

instance (E : Refreshing δ) (s : State δ) (i : Nat) (sub : LifeSubs δ) (p : Str) :
    Decidable (IsReferenced resolve E s i sub p) :=
  inferInstanceAs (Decidable (if sub.settings.notifyType = .objectCreation then _ ∈ _ else _))

theorem refreshInstVector_settled {s : State δ} {i : Nat} (hsub : s.subscriptions[i]? = some sub)
    (hsettled : Settled s sub) (r : Refresh δ) :
    (refreshInstVector resolve s r).subscriptions[i]? = some sub := by
  unfold refreshInstVector
  dsimp only
  split
  · exact hsub
  · show (resolveWithoutRefresh resolve _).subscriptions[i]? = some sub
    unfold resolveWithoutRefresh
    split
    · exact hsub
    · next hunresolved =>
      have hinactive := hsettled.resolve_left hunresolved
      simp [queueRefreshed, hsub, hinactive]

theorem refreshes_settled {s : State δ} {i : Nat} (hsub : s.subscriptions[i]? = some sub)
    (hsettled : Settled s sub) :
    (refreshes.foldl (refreshInstVector resolve) s).subscriptions[i]? = some sub := by
  induction refreshes generalizing s with
  | nil => exact hsub
  | cons r refreshes ih =>
    exact ih (refreshInstVector_settled resolve hsub hsettled r)
      (hsettled.after (refreshInstVector_resolves resolve s r).deletions)

theorem refreshes_dataModel (s : State δ) :
    (refreshes.foldl (refreshInstVector resolve) s).dataModel =
      dataModelAfter refreshes s.dataModel := by
  induction refreshes generalizing s with
  | nil => rfl
  | cons r refreshes ih => exact ih (refreshInstVector resolve s r)

theorem modifySubs_other {i : Nat} (hji : j ≠ i) (f : LifeSubs δ → LifeSubs δ) (s : State δ) :
    (modifySubs j f s).subscriptions[i]? = s.subscriptions[i]? :=
  getElem?_modify_ne f s.subscriptions hji

theorem modifySubs_own {s : State δ} {i : Nat} (hsub : s.subscriptions[i]? = some sub)
    (f : LifeSubs δ → LifeSubs δ) : (modifySubs i f s).subscriptions[i]? = some (f sub) := by
  simp [modifySubs, hsub]

/-- The turn of another subscription does not resolve it again. -/
theorem resolveAllPathExpressions_other {s : State δ} {i : Nat} (hji : j ≠ i)
    (hsub : s.subscriptions[i]? = some sub) (hsettled : Settled s sub) :
    (resolveAllPathExpressions resolve E j s).subscriptions[i]? = some sub := by
  have hcleared : (modifySubs j LifeSubs.cleared s).subscriptions[i]? = some sub := by
    rw [modifySubs_other hji, hsub]
  have hrefreshed := refreshes_settled resolve (E j) hcleared hsettled
  dsimp only [resolveAllPathExpressions]
  rw [modifySubs_other hji, hrefreshed]

theorem resolveAllPathExpressions_own {s : State δ} {i : Nat}
    (hsub : s.subscriptions[i]? = some sub) (hsettled : Settled s sub) :
    (resolveAllPathExpressions resolve E i s).subscriptions[i]? =
      some (sub.cleared.resolved resolve (dataModelAfter (E i) s.dataModel)) := by
  have hrefreshed := refreshes_settled resolve (E i) (modifySubs_own hsub LifeSubs.cleared) hsettled
  dsimp only [resolveAllPathExpressions]
  rw [modifySubs_own hrefreshed, refreshes_dataModel]
  rfl

theorem resolveAllPathExpressions_dataModel (i : Nat) (s : State δ) :
    (resolveAllPathExpressions resolve E i s).dataModel = dataModelAfter (E i) s.dataModel :=
  refreshes_dataModel resolve (E i) (modifySubs i LifeSubs.cleared s)

theorem processOne_other {s : State δ} {i : Nat} (hji : j ≠ i)
    (hsub : s.subscriptions[i]? = some sub) (hsettled : Settled s sub) :
    (processOne resolve E s j).subscriptions[i]? = some sub := by
  unfold processOne
  split
  · exact hsub
  split
  swap
  · exact hsub
  dsimp only [processObjectLifeEventSubscription]
  rw [modifySubs_other hji]
  split
  · exact hsub
  · dsimp only [resolveCreationPaths]
    split
    · exact resolveAllPathExpressions_other resolve E hji hsub hsettled
    · exact hsub

/-- While events are queued, the turn of an active creation subscription refreshes. -/
theorem processOne_dataModel {s : State δ} (hqueue : s.objectLifeEvents ≠ []) (j : Nat) :
    (processOne resolve E s j).dataModel =
      if s.subscriptions[j]?.any (isActive .objectCreation) then dataModelAfter (E j) s.dataModel
      else s.dataModel := by
  unfold processOne
  cases s.subscriptions[j]? with
  | none => rfl
  | some sub =>
    dsimp only [Option.any_some, processObjectLifeEventSubscription, resolveCreationPaths]
    rw [if_neg hqueue]
    by_cases hcreation : isActive .objectCreation sub = true
    · have hkind : sub.settings.notifyType = .objectCreation := by
        simp only [isActive, Bool.and_eq_true, decide_eq_true_eq] at hcreation
        exact hcreation.2
      rw [if_pos (by simp [hcreation]), if_pos hkind, if_pos hcreation]
      exact resolveAllPathExpressions_dataModel resolve E j s
    · rw [if_neg hcreation]
      split
      · next hactive =>
        have hkind : sub.settings.notifyType ≠ .objectCreation := by
          intro hkind
          simp_all [isActive]
        rw [if_neg hkind]
        rfl
      · rfl

theorem stateAtTurn_settled {s : State δ} {i : Nat} (hsub : s.subscriptions[i]? = some sub)
    (hsettled : Settled s sub) :
    ∀ n ≤ i, (stateAtTurn resolve E s n).subscriptions[i]? = some sub ∧
      Settled (stateAtTurn resolve E s n) sub := by
  intro n hn
  induction n with
  | zero => exact ⟨hsub, hsettled⟩
  | succ n ih =>
    obtain ⟨hn', hsettled'⟩ := ih (by omega)
    rw [stateAtTurn_succ]
    exact ⟨processOne_other resolve E (by omega) hn' hsettled',
      hsettled'.after (processOne_turn resolve E _ n).deletions⟩

theorem any_isActive (j : Nat) (h : subs'.map (·.settings) = subs.map (·.settings)) :
    subs'[j]?.any (isActive notifyType) = subs[j]?.any (isActive notifyType) := by
  have hj := congrArg (·[j]?) h
  simp only [getElem?_map] at hj
  cases hsub : subs[j]? with
  | none =>
    rw [hsub, Option.map_none, Option.map_eq_none_iff] at hj
    rw [hj]
  | some sub =>
    rw [hsub, Option.map_some, Option.map_eq_some_iff] at hj
    obtain ⟨sub', hsub', hsettings⟩ := hj
    simp [hsub', isActive, hsettings]

theorem stateAtTurn_dataModel {s : State δ} (hqueue : s.objectLifeEvents ≠ []) (n : Nat) :
    (stateAtTurn resolve E s n).dataModel = dataModelAfterTurns E s n := by
  induction n with
  | zero => rfl
  | succ n ih =>
    rw [stateAtTurn_succ, processOne_dataModel resolve E (stateAtTurn_queue resolve E hqueue n), ih,
      any_isActive _ n (stateAtTurn_settings resolve E s n), dataModelAfterTurns,
      dataModelAfterTurns, range_succ, foldl_append]
    rfl

/-- While a committed operation of its kind waits, the paths that a subscription is
matched with are those that its reference list names. -/
theorem mem_pathsAtProcessing {s : State δ} {i : Nat} (hsub : s.subscriptions[i]? = some sub)
    (hactive : IsLifeSubs sub = true) (hrecorded : sub.Recorded resolve)
    (hqueue : s.objectLifeEvents ≠ [])
    (hdeletion : sub.settings.notifyType = .objectDeletion → s.objectDeletionPathsResolved = true)
    (p : Str) : p ∈ pathsAtProcessing resolve E s i ↔ IsReferenced resolve E s i sub p := by
  by_cases hcreation : sub.settings.notifyType = .objectCreation
  · have hsettled : Settled s sub := .inr (by simp [isActive, hcreation])
    obtain ⟨hturn, hsettled'⟩ := stateAtTurn_settled resolve E hsub hsettled i le_rfl
    have hown := resolveAllPathExpressions_own resolve E hturn hsettled'
    have hmodel : dataModelAfter (E i) (stateAtTurn resolve E s i).dataModel =
        dataModelAfterTurns E s (i + 1) := by
      have hcreator : isActive .objectCreation sub = true := by
        simp_all [IsLifeSubs, isActive]
      rw [← stateAtTurn_dataModel resolve E hqueue (i + 1), stateAtTurn_succ,
        processOne_dataModel resolve E (stateAtTurn_queue resolve E hqueue i), hturn,
        Option.any_some, if_pos hcreator]
    rw [pathsAtProcessing, hturn, Option.bind_some, resolveCreationPaths, if_pos hcreation, hown,
      Option.map_some, Option.getD_some, IsReferenced, if_pos hcreation, hmodel,
      LifeSubs.resolved, mem_addMissing]
    simp [LifeSubs.cleared]
  · have hdel : sub.settings.notifyType = .objectDeletion := by
      simp_all [IsLifeSubs, isActive]
    obtain ⟨hturn, -⟩ := stateAtTurn_settled resolve E hsub (.inl (hdeletion hdel)) i le_rfl
    rw [pathsAtProcessing, hturn, Option.bind_some, resolveCreationPaths, if_neg hcreation, hturn,
      Option.map_some, Option.getD_some, IsReferenced, if_neg hcreation, hrecorded p]

/-! ## Runs -/

def isCommitted (ole : LifeEvent δ) : Bool := ole.source = .committed

/-- The reference list resolved the object when it was added or deleted. -/
def isMatched (settings : SubsSettings) (ole : LifeEvent δ) : Bool :=
  ole.notifyType = settings.notifyType && ole.objPath ∈ resolve settings ole.happened

/-- How a step changes the committed operations that wait for a processing call. -/
def pendingAfter (s : State δ) (pending : List (LifeEvent δ)) :
    LifeStep δ → List (LifeEvent δ)
  | .commit => pending ++ (s.curTransaction.getD []).map LogEntry.event
  | .process _ => []
  | _ => pending

/-- The operations that were committed since the last processing call, in the
order of the commits. -/
def pendingFrom (s : State δ) (pending : List (LifeEvent δ)) :
    List (LifeStep δ) → List (LifeEvent δ)
  | [] => pending
  | step :: steps =>
    match lifeStep resolve step s with
    | none => pending
    | some s' => pendingFrom s' (pendingAfter s pending step) steps

theorem filter_committed_resolves {s : State δ} (h : Resolves resolve s s') :
    s'.objectLifeEvents.filter isCommitted = s.objectLifeEvents.filter isCommitted := by
  obtain ⟨refreshed, hevents, hsource⟩ := h.events
  have hnone : refreshed.filter isCommitted = [] := by
    apply List.filter_eq_nil_iff.mpr
    intro ole hole
    simp [isCommitted, hsource ole hole]
  rw [hevents, filter_append, hnone, append_nil]

theorem committed_step {s t : State δ} (hstep : lifeStep resolve step s = some t) :
    t.objectLifeEvents.filter isCommitted =
      pendingAfter s (s.objectLifeEvents.filter isCommitted) step := by
  cases step with
  | start =>
    cases hstep
    rfl
  | add objPath next =>
    simp only [lifeStep, transAdd, Option.map_eq_some_iff] at hstep
    obtain ⟨log, -, rfl⟩ := hstep
    rfl
  | del E objPath next =>
    simp only [lifeStep, transAdd, Option.map_eq_some_iff] at hstep
    obtain ⟨_, ⟨log, -, rfl⟩, rfl⟩ := hstep
    have hresolve :=
      filter_committed_resolves resolve (resolveObjectDeletionPaths_resolves resolve E s)
    exact hresolve
  | update next =>
    cases hstep
    rfl
  | commit =>
    simp only [lifeStep, transCommit] at hstep
    split at hstep
    · next hnone =>
      cases hstep
      simp [pendingAfter, hnone]
    · next hnil =>
      cases hstep
      simp [pendingAfter, hnil]
    · next log _ hlog =>
      split at hstep
      · cases hstep
      · cases hstep
        have hall : (log.map LogEntry.event).filter isCommitted = log.map LogEntry.event := by
          apply List.filter_eq_self.mpr
          intro ole hole
          obtain ⟨entry, -, rfl⟩ := List.mem_map.mp hole
          rfl
        simp [pendingAfter, hlog, hall]
  | abort restored =>
    simp only [lifeStep, Option.some.injEq] at hstep
    subst hstep
    split <;> rfl
  | refresh r =>
    cases hstep
    exact filter_committed_resolves resolve (refreshInstVector_resolves resolve s r)
  | subsChange c =>
    cases hstep
    rfl
  | process E =>
    cases hstep
    rfl

/-- The queued events that come from operations are those of the commits since
the last processing call. -/
theorem committed_eq_pending (steps : List (LifeStep δ)) (s s' : State δ)
    (hrun : run (lifeStep resolve) steps s = some s') :
    s'.objectLifeEvents.filter isCommitted =
      pendingFrom resolve s (s.objectLifeEvents.filter isCommitted) steps := by
  induction steps generalizing s with
  | nil =>
    cases hrun
    rfl
  | cons step steps ih =>
    rw [run_cons] at hrun
    obtain ⟨t, hstep, hrest⟩ := Option.bind_eq_some_iff.mp hrun
    rw [ih t hrest, pendingFrom, hstep, committed_step resolve hstep]

/-- The paths of the deletion subscriptions are resolved while a committed deletion
waits. -/
structure Waiting (s : State δ) : Prop where
  recorded : ∀ sub ∈ s.subscriptions, sub.Recorded resolve
  deletions : ∀ ole ∈ s.objectLifeEvents, isCommitted ole = true →
    ole.notifyType = .objectDeletion → s.objectDeletionPathsResolved = true

variable {resolve}

theorem Resolves.waiting {s : State δ} (h : Resolves resolve s s') (hs : Waiting resolve s) :
    Waiting resolve s' := by
  refine ⟨h.recorded hs.recorded, fun ole hole hcommitted hkind => ?_⟩
  have hmem := List.mem_filter.mpr ⟨hole, hcommitted⟩
  rw [filter_committed_resolves resolve h] at hmem
  exact h.deletions (hs.deletions ole (List.mem_filter.mp hmem).1 hcommitted hkind)

theorem changeSubs_recorded (c : SubsChange) (h : ∀ sub ∈ subs, sub.Recorded resolve) :
    ∀ sub ∈ changeSubs c subs, sub.Recorded resolve := by
  intro sub hsub
  cases c with
  | added settings =>
    rcases List.mem_append.mp hsub with hold | hnew
    · exact h sub hold
    · rw [List.mem_singleton.mp hnew]
      intro p
      simp
  | deleted inst => exact h sub (mem_of_mem_eraseP hsub)
  | set inst settings =>
    obtain ⟨old, hold, rfl⟩ := List.mem_map.mp hsub
    have hr := h old hold
    split
    · exact hr
    · exact hr

theorem waiting_step {s t : State δ} (hs : Waiting resolve s)
    (hstep : lifeStep resolve step s = some t) : Waiting resolve t := by
  cases step with
  | start =>
    cases hstep
    exact ⟨hs.recorded, hs.deletions⟩
  | add objPath next =>
    simp only [lifeStep, transAdd, Option.map_eq_some_iff] at hstep
    obtain ⟨log, -, rfl⟩ := hstep
    exact ⟨hs.recorded, hs.deletions⟩
  | del E objPath next =>
    simp only [lifeStep, transAdd, Option.map_eq_some_iff] at hstep
    obtain ⟨_, ⟨log, -, rfl⟩, rfl⟩ := hstep
    have hresolved := (resolveObjectDeletionPaths_resolves resolve E s).waiting hs
    exact ⟨hresolved.recorded, hresolved.deletions⟩
  | update next =>
    cases hstep
    exact ⟨hs.recorded, hs.deletions⟩
  | commit =>
    simp only [lifeStep, transCommit] at hstep
    split at hstep
    · cases hstep
      exact hs
    · cases hstep
      exact ⟨hs.recorded, hs.deletions⟩
    · next log _ _ =>
      split at hstep
      · cases hstep
      next hasserted =>
      cases hstep
      refine ⟨hs.recorded, fun ole hole hcommitted hkind => ?_⟩
      rcases List.mem_append.mp hole with hold | hnew
      · exact hs.deletions ole hold hcommitted hkind
      -- the assertion of the commit: a deletion is in the log
      · obtain ⟨entry, hentry, rfl⟩ := List.mem_map.mp hnew
        have hdel : log.any (fun entry => !entry.isAdd) = true := by
          refine List.any_eq_true.mpr ⟨entry, hentry, ?_⟩
          cases hadd : entry.isAdd with
          | false => rfl
          | true => simp [LogEntry.event, hadd] at hkind
        simpa [hdel] using hasserted
  | abort restored =>
    simp only [lifeStep, Option.some.injEq] at hstep
    subst hstep
    split
    · exact hs
    · exact ⟨hs.recorded, hs.deletions⟩
  | refresh r =>
    cases hstep
    exact (refreshInstVector_resolves resolve s r).waiting hs
  | subsChange c =>
    cases hstep
    exact ⟨changeSubs_recorded c hs.recorded, hs.deletions⟩
  | process E =>
    cases hstep
    have hturns := stateAtTurn_recorded resolve E hs.recorded s.subscriptions.length
    exact ⟨hturns, fun ole hole => by cases hole⟩

theorem waiting_of_run {d : δ} {steps : List (LifeStep δ)} {s : State δ}
    (hrun : run (lifeStep resolve) steps (initialState d) = some s) : Waiting resolve s := by
  have hfirst : Waiting resolve (initialState d) := ⟨by simp [initialState], by simp [initialState]⟩
  exact run_induction (I := fun _ s => Waiting resolve s) hfirst
    (fun _ s step t _ hs hstep => waiting_step hs hstep) steps s hrun

variable (resolve)

theorem filter_eq_filter_iff {α : Type} {p q : α → Bool} {l : List α} :
    l.filter p = l.filter q ↔ ∀ a ∈ l, p a = q a := by
  constructor
  · intro h a ha
    rw [Bool.eq_iff_iff]
    constructor
    · intro hp
      have hmem : a ∈ l.filter q := h ▸ List.mem_filter.mpr ⟨ha, hp⟩
      exact (List.mem_filter.mp hmem).2
    · intro hq
      have hmem : a ∈ l.filter p := h ▸ List.mem_filter.mpr ⟨ha, hq⟩
      exact (List.mem_filter.mp hmem).2
  · exact fun h => filter_congr h

/-- The objects that exist, of those that a reference list names. -/
def existing (settings : SubsSettings) (objects : List Str) : List Str :=
  objects.filter fun p => p ∈ settings.pathExpressions

def creationSettings : SubsSettings := ⟨1, 1, true, .objectCreation, [['X']]⟩

def addedAndDeleted : List (LifeStep (List Str)) :=
  [.subsChange (.added creationSettings),
    .start, .add ['X'] [['X']], .commit, .commit,
    .start, .del (fun _ => []) ['X'] [], .commit, .commit]

theorem addedAndDeleted_runs :
    (run (lifeStep existing) addedAndDeleted (initialState [])).map (fun s =>
      (s.subscriptions, (notifiedBy 0 (processAll existing (fun _ => []) s)).map (·.objPath))) =
    some ([⟨creationSettings, [], []⟩], []) := by
  decide

def deletionSettings : SubsSettings := ⟨2, 1, true, .objectDeletion, [['X']]⟩

def addedThenDeleted : List (LifeStep (List Str)) :=
  [.subsChange (.added deletionSettings), .start, .add ['X'] [['X']], .commit,
    .process (fun _ => []), .start, .del (fun _ => []) ['X'] [], .commit]

theorem addedThenDeleted_runs :
    (run (lifeStep existing) addedThenDeleted (initialState [])).map (·.subscriptions) =
      some [⟨deletionSettings, [['X']], [(deletionSettings, [['X']])]⟩] := by
  decide

end LifeEvents
