import SdtTr369.MqttClient

/-!
# Scheduled requests for one client

The part of a slot that decides about requests: its state, the two scheduled actions,
the parameters in use and those to use next, and a ledger of the requests made. A
request is kept as long as the retry and reconnect paths do not clear one that waits.
-/

namespace MqttFlags

open MqttClient

/-- What the log tells about requests: whether the last one of enable and disable was
an enable, the parameters of the latest request, whether a reconnect was activated since
the slot was taken into use, whether the slot was only cleaned for good after a disable,
and whether each attempt after an activation used the latest parameters. -/
structure Ledger where
  last : Option Bool
  latest : Option ConnectArgs
  activated : Bool
  orderly : Bool
  served : Bool
  deriving DecidableEq

def Ledger.after (l : Ledger) : Event → Ledger
  | .enabled => { l with last := some true }
  | .disable => { l with last := some false }
  | .enable p | .reconnectRequest p => { l with latest := some (connectArgs p) }
  | .reconnectActivated => { l with activated := true }
  | .cleaned isReconnect =>
    if isReconnect then l
    else { l with activated := false, orderly := l.orderly && l.last = some false }
  | .connect args => { l with served := l.served && (!l.activated || l.latest = some args) }
  | _ => l

def ledger (log : List Event) : Ledger := log.foldl Ledger.after ⟨none, none, false, true, true⟩

@[simp] theorem ledger_append (log es : List Event) :
    ledger (log ++ es) = es.foldl Ledger.after (ledger log) := List.foldl_append ..

structure Flags where
  state : MqttState
  isReconnect : Bool
  scheduleReconnect : ScheduledAction
  scheduleClose : ScheduledAction
  inst : Int
  args : ConnectArgs
  nextInst : Int
  nextArgs : ConnectArgs
  ledger : Ledger

namespace Flags

variable (f : Flags)

def note (e : Event) : Flags := { f with ledger := f.ledger.after e }

def takeNext : Flags := { f with inst := f.nextInst, args := f.nextArgs }

def destroyedArgs : ConnectArgs := connectArgs destroyedConnParams

def clean (isReconnect : Bool) : Flags :=
  let f := { f.note (.cleaned isReconnect) with
    scheduleReconnect := .off
    scheduleClose := .off
    inst := invalid
    args := destroyedArgs
    state := .idle }
  if isReconnect then f
  else { f with nextInst := invalid, nextArgs := destroyedArgs, isReconnect := false }

/-- `EnableMqttClient`; `success` is what `EnableMosquitto` returns. -/
def enable (success : Bool) : Flags :=
  { f with
    scheduleReconnect := .off
    scheduleClose := .off
    state := if success then .sendingConnect else f.state }

def disconnect (socket : Bool) : Flags :=
  if socket then { f with state := .awaitingDisconnect } else f

def afterDisconnect (success : Bool) : Flags :=
  if f.isReconnect then (takeNext { f.clean true with isReconnect := false }).enable success
  else f.clean false

def retry : Flags := { f with state := .errorRetrying, isReconnect := false }

def error (success : Bool) : Flags :=
  if f.state = .awaitingDisconnect ∧ f.isReconnect then f.afterDisconnect success else f.retry

def reconnect (socket success : Bool) : Flags :=
  match f.state with
  | .idle | .errorRetrying => f.takeNext.enable success
  | .awaitingDisconnect => { f with isReconnect := true }
  | .sendingConnect | .awaitingConnect | .running =>
    if socket then { f with isReconnect := true, state := .awaitingDisconnect }
    else f.takeNext.enable success

def close (socket queueEmpty : Bool) : Flags :=
  match f.state with
  | .awaitingDisconnect => { f with isReconnect := false }
  | .sendingConnect | .idle | .errorRetrying => f.clean false
  | .running | .awaitingConnect =>
    if queueEmpty then disconnect { f with isReconnect := false } socket else f

def disconnected (success : Bool) : Flags :=
  match f.state with
  | .errorRetrying | .idle => f
  | .awaitingDisconnect => f.afterDisconnect success
  | .sendingConnect | .awaitingConnect | .running => f.error success

def retryAtOnce : Flags := if f.scheduleReconnect = .activated then f.takeNext else f

/-- `MQTT_EnableClient`, when it takes the parameters over. -/
def enableClient (p : ConnParams) (success : Bool) : Flags :=
  let f := { f.note (.enable p) with
    inst := p.inst
    args := connectArgs p
    nextInst := p.inst
    nextArgs := connectArgs p }
  if p.enable then if success then (f.enable true).note .enabled else f.enable false else f

def disable : Flags := { f.note .disable with scheduleClose := .signalled }

def request (p : ConnParams) : Flags :=
  { f.note (.reconnectRequest p) with
    nextInst := f.inst, nextArgs := connectArgs p, scheduleReconnect := .signalled }

def activateReconnect : Flags :=
  if f.scheduleReconnect = .signalled then
    { f.note .reconnectActivated with scheduleReconnect := .activated }
  else f

def activate : Flags :=
  let f := f.activateReconnect
  if f.scheduleClose = .signalled then { f with scheduleClose := .activated } else f

end Flags

/-! ## A close comes from a disable -/

/-- What holds of a slot whatever happens. -/
structure CloseOk (f : Flags) : Prop where
  awaiting : f.state = .awaitingDisconnect → f.isReconnect = false → f.scheduleClose ≠ .off
  close : f.scheduleClose ≠ .off → f.ledger.last = some false
  orderly : f.ledger.orderly = true

namespace CloseOk

variable {f : Flags}

section

variable (h : CloseOk f)
include h

theorem enter {state : MqttState} (hstate : state ≠ .awaitingDisconnect) (isReconnect : Bool) :
    CloseOk { f with state := state, isReconnect := isReconnect } :=
  ⟨fun hawaiting => absurd hawaiting hstate, h.close, h.orderly⟩

theorem reconnecting (state : MqttState) : CloseOk { f with isReconnect := true, state := state } :=
  ⟨fun _ hflag => absurd hflag (by simp), h.close, h.orderly⟩

theorem takeNext : CloseOk f.takeNext := ⟨h.awaiting, h.close, h.orderly⟩

/-- The flags are cleared in a state other than `awaitingDisconnect`. -/
theorem enable (hstate : f.state ≠ .awaitingDisconnect) (success : Bool) :
    CloseOk (f.enable success) := by
  refine ⟨?_, fun hclose => absurd rfl hclose, h.orderly⟩
  cases success
  · exact fun hawaiting => absurd hawaiting hstate
  · intro hawaiting
    cases hawaiting

theorem cleanReconnect : CloseOk (f.clean true) := by
  refine ⟨fun hawaiting => ?_, fun hclose => absurd rfl hclose, h.orderly⟩
  cases hawaiting

theorem cleanForGood (hclose : f.scheduleClose ≠ .off) : CloseOk (f.clean false) := by
  refine ⟨fun hawaiting => ?_, fun hclose => absurd rfl hclose, ?_⟩
  · cases hawaiting
  · simp [Flags.clean, Flags.note, Ledger.after, h.orderly, h.close hclose]

theorem afterDisconnect (hstate : f.state = .awaitingDisconnect) (success : Bool) :
    CloseOk (f.afterDisconnect success) := by
  unfold Flags.afterDisconnect
  split
  · apply enable
    · exact takeNext (h.cleanReconnect.enter (by simp [Flags.clean]) false)
    · simp [Flags.takeNext, Flags.clean]
  · next hflag => exact h.cleanForGood (h.awaiting hstate (by simpa using hflag))

theorem error (success : Bool) : CloseOk (f.error success) := by
  unfold Flags.error
  split
  · next hstate => exact h.afterDisconnect hstate.1 success
  · exact h.enter (by simp) false

theorem reconnect (socket success : Bool) : CloseOk (f.reconnect socket success) := by
  unfold Flags.reconnect
  split
  case h_3 => exact h.reconnecting _
  case h_1 hstate | h_2 hstate => exact h.takeNext.enable (by simp [Flags.takeNext, hstate]) success
  all_goals
    next hstate =>
    split
    · exact h.reconnecting _
    · exact h.takeNext.enable (by simp [Flags.takeNext, hstate]) success

theorem close_ok (hclose : f.scheduleClose = .activated) (socket queueEmpty : Bool) :
    CloseOk (f.close socket queueEmpty) := by
  have hnot : f.scheduleClose ≠ .off := by simp [hclose]
  have hawaiting : ∀ state isReconnect,
      CloseOk { f with state := state, isReconnect := isReconnect } :=
    fun _ _ => ⟨fun _ _ => hnot, h.close, h.orderly⟩
  unfold Flags.close
  split
  case h_1 => exact hawaiting _ _
  case h_2 | h_3 | h_4 => exact h.cleanForGood hnot
  all_goals
    split
    · unfold Flags.disconnect
      split
      · exact hawaiting _ _
      · exact hawaiting _ _
    · exact h

theorem disconnected (success : Bool) : CloseOk (f.disconnected success) := by
  unfold Flags.disconnected
  split
  case h_1 | h_2 => exact h
  case h_3 hstate => exact h.afterDisconnect hstate success
  all_goals exact h.error success

theorem enableClient (p : ConnParams) (hstate : f.state ≠ .awaitingDisconnect) (success : Bool) :
    CloseOk (f.enableClient p success) := by
  have hnoted : CloseOk { f.note (.enable p) with
      inst := p.inst, args := connectArgs p, nextInst := p.inst, nextArgs := connectArgs p } :=
    ⟨h.awaiting, h.close, h.orderly⟩
  dsimp only [Flags.enableClient]
  split
  · split
    · refine ⟨fun hawaiting => ?_, fun hclose => absurd rfl hclose, h.orderly⟩
      cases hawaiting
    · exact hnoted.enable hstate false
  · exact hnoted

theorem disable : CloseOk f.disable :=
  ⟨fun _ _ => by simp [Flags.disable], fun _ => rfl, h.orderly⟩

theorem request (p : ConnParams) : CloseOk (f.request p) :=
  ⟨h.awaiting, h.close, h.orderly⟩

theorem activate : CloseOk f.activate := by
  have hreconnect : CloseOk f.activateReconnect := by
    unfold Flags.activateReconnect
    split
    · exact ⟨h.awaiting, h.close, h.orderly⟩
    · exact h
  dsimp only [Flags.activate]
  split
  · next hsignalled =>
    exact ⟨fun _ _ => by simp, fun _ => hreconnect.close (by simp [hsignalled]), hreconnect.orderly⟩
  · exact hreconnect

end

end CloseOk

/-! ## No request is lost -/

/-- What holds of a slot as long as no request is cleared that waits. -/
structure FlagsOk (f : Flags) : Prop extends CloseOk f where
  unused : f.inst = invalid → f.state = .idle ∧ f.scheduleReconnect = .off ∧
    f.scheduleClose = .off ∧ f.ledger.last ≠ some true
  flag : f.isReconnect = true → f.state = .awaitingDisconnect
  up : f.state ≠ .idle → f.scheduleClose = .off → f.ledger.last = some true
  idle : f.state = .idle → f.scheduleClose = .off →
    f.scheduleReconnect = .off ∧ f.ledger.last ≠ some true
  nextInst : f.nextInst = f.inst
  latest : f.inst ≠ invalid → f.ledger.latest = some f.nextArgs
  current : f.scheduleReconnect = .off → f.args = f.nextArgs
  served : f.ledger.served = true

namespace FlagsOk

variable {f : Flags}

section

variable (h : FlagsOk f)
include h

theorem inUse (hstate : f.state ≠ .idle) : f.inst ≠ invalid :=
  fun hinst => hstate (h.unused hinst).1

/-- Another state of a connection that is up, none of those that a request looks at. -/
theorem enter (hstate : f.state ≠ .idle) {state : MqttState} (hidle : state ≠ .idle)
    (hawaiting : state ≠ .awaitingDisconnect) :
    FlagsOk { f with state := state, isReconnect := false } where
  toCloseOk := h.toCloseOk.enter hawaiting false
  unused := fun hinst => absurd hinst (h.inUse hstate)
  flag := fun hflag => absurd hflag (by simp)
  up := fun _ hclose => h.up hstate hclose
  idle := fun hstate' => absurd hstate' hidle
  nextInst := h.nextInst
  latest := h.latest
  current := h.current
  served := h.served

theorem retry (hstate : f.state ≠ .idle) : FlagsOk f.retry :=
  h.enter hstate (by simp) (by simp)

theorem reconnecting (hstate : f.state ≠ .idle) :
    FlagsOk { f with isReconnect := true, state := .awaitingDisconnect } where
  toCloseOk := h.toCloseOk.reconnecting _
  unused := fun hinst => absurd hinst (h.inUse hstate)
  flag := fun _ => rfl
  up := fun _ hclose => h.up hstate hclose
  idle := fun hstate' => absurd hstate' (by simp)
  nextInst := h.nextInst
  latest := h.latest
  current := h.current
  served := h.served

theorem takeNext : FlagsOk f.takeNext := by
  have hinst : f.nextInst = f.inst := h.nextInst
  have hsame : f.takeNext = { f with args := f.nextArgs } := by simp [Flags.takeNext, hinst]
  rw [hsame]
  exact
    { toCloseOk := ⟨h.awaiting, h.close, h.orderly⟩
      unused := h.unused
      flag := h.flag
      up := h.up
      idle := h.idle
      nextInst := h.nextInst
      latest := h.latest
      current := fun _ => rfl
      served := h.served }

/-- A connection is started while no close waits, with the parameters of the latest
request. -/
theorem enable (hidle : f.state ≠ .idle) (hawaiting : f.state ≠ .awaitingDisconnect)
    (hclose : f.scheduleClose = .off) (hargs : f.args = f.nextArgs) (success : Bool) :
    FlagsOk (f.enable success) where
  toCloseOk := h.toCloseOk.enable hawaiting success
  unused := fun hinst => absurd hinst (h.inUse hidle)
  flag := fun hflag => absurd (h.flag hflag) hawaiting
  up := fun _ _ => h.up hidle hclose
  idle := by
    cases success
    · exact fun hstate => absurd hstate hidle
    · exact fun hstate => absurd hstate (by simp [Flags.enable])
  nextInst := h.nextInst
  latest := h.latest
  current := fun _ => hargs
  served := h.served

theorem cleanForGood (hclose : f.scheduleClose ≠ .off) :
    FlagsOk (f.clean false) where
  toCloseOk := h.toCloseOk.cleanForGood hclose
  unused := fun _ => ⟨rfl, rfl, rfl, by simp [Flags.clean, Flags.note, Ledger.after, h.close hclose]⟩
  flag := fun hflag => absurd hflag (by simp [Flags.clean])
  up := fun hstate => absurd rfl hstate
  idle := fun _ _ => ⟨rfl, by simp [Flags.clean, Flags.note, Ledger.after, h.close hclose]⟩
  nextInst := rfl
  latest := fun hinst => absurd rfl hinst
  current := fun _ => rfl
  served := h.served

variable {success : Bool}

/-- The reconnect after a disconnect: it needs that no close waits and that the context
is set up. -/
theorem afterDisconnect (hstate : f.state = .awaitingDisconnect)
    (hok : f.isReconnect → f.scheduleClose = .off ∧ success = true) :
    FlagsOk (f.afterDisconnect success) := by
  have hclose := h.toCloseOk.afterDisconnect hstate success
  have hidle : f.state ≠ .idle := by simp [hstate]
  unfold Flags.afterDisconnect at hclose ⊢
  split
  · next hflag =>
    rw [if_pos hflag] at hclose
    obtain ⟨hoff, rfl⟩ := hok hflag
    have hup := h.up hidle hoff
    have hinst := h.nextInst
    exact
      { toCloseOk := hclose
        unused := fun hinvalid => absurd (hinst.symm.trans hinvalid) (h.inUse hidle)
        flag := fun hflag => absurd hflag (by simp [Flags.enable, Flags.takeNext])
        up := fun _ _ => hup
        idle := fun hstate => absurd hstate (by simp [Flags.enable])
        nextInst := rfl
        latest := fun _ => h.latest (h.inUse hidle)
        current := fun _ => rfl
        served := h.served }
  · next hflag => exact h.cleanForGood (h.awaiting hstate (by simpa using hflag))

theorem error (hidle : f.state ≠ .idle)
    (hok : f.isReconnect → f.scheduleClose = .off ∧ success = true) :
    FlagsOk (f.error success) := by
  unfold Flags.error
  split
  · next hstate => exact h.afterDisconnect hstate.1 hok
  · exact h.retry hidle

/-- The reconnect of a client that does not wait for a disconnect starts at once. -/
theorem reconnect (hactivated : f.scheduleReconnect = .activated) {socket success : Bool}
    (hok : f.state = .idle ∨ f.state = .errorRetrying ∨
      (f.state ≠ .awaitingDisconnect ∧ socket = false) → f.scheduleClose = .off) :
    FlagsOk (f.reconnect socket success) := by
  have henable : f.state ≠ .idle → f.state ≠ .awaitingDisconnect → f.scheduleClose = .off →
      FlagsOk (f.takeNext.enable success) := fun hidle hawaiting hclose =>
    h.takeNext.enable hidle hawaiting hclose rfl success
  unfold Flags.reconnect
  split
  case h_1 hstate =>
    have hoff := (h.idle hstate (hok (.inl hstate))).1
    rw [hactivated] at hoff
    cases hoff
  case h_2 hstate =>
    exact henable (by simp [hstate]) (by simp [hstate]) (hok (.inr (.inl hstate)))
  case h_3 hstate =>
    have hagain := h.reconnecting (by simp [hstate])
    rwa [← hstate] at hagain
  all_goals
    next hstate =>
    split
    · exact h.reconnecting (by simp [hstate])
    · next hsocket =>
      exact henable (by simp [hstate]) (by simp [hstate])
        (hok (.inr (.inr ⟨by simp [hstate], by simpa using hsocket⟩)))

theorem close_ok (hactivated : f.scheduleClose = .activated) (socket queueEmpty : Bool) :
    FlagsOk (f.close socket queueEmpty) := by
  have hnot : f.scheduleClose ≠ .off := by simp [hactivated]
  have hclose := h.toCloseOk.close_ok hactivated socket queueEmpty
  have hstay : ∀ state, f.state ≠ .idle → state ≠ .idle →
      CloseOk { f with state := state, isReconnect := false } →
      FlagsOk { f with state := state, isReconnect := false } := fun state hidle hidle' hok =>
    { toCloseOk := hok
      unused := fun hinst => absurd hinst (h.inUse hidle)
      flag := fun hflag => absurd hflag (by simp)
      up := fun _ hoff => absurd hoff hnot
      idle := fun hstate => absurd hstate hidle'
      nextInst := h.nextInst
      latest := h.latest
      current := h.current
      served := h.served }
  unfold Flags.close at hclose ⊢
  split
  case h_1 hstate =>
    simp only [hstate] at hclose
    have hsame := hstay f.state (by simp [hstate]) (by simp [hstate])
    exact hsame (by simpa [hstate] using hclose)
  case h_2 | h_3 | h_4 => exact h.cleanForGood hnot
  all_goals
    next hstate =>
    have hidle : f.state ≠ .idle := by simp [hstate]
    simp only [hstate] at hclose
    split
    · next hqueue =>
      rw [if_pos hqueue] at hclose
      unfold Flags.disconnect at hclose ⊢
      split
      · next hsocket =>
        rw [if_pos hsocket] at hclose
        exact hstay _ hidle (by simp) hclose
      · next hsocket =>
        rw [if_neg hsocket] at hclose
        exact hstay f.state hidle hidle (by simpa [hstate] using hclose)
    · exact h

theorem disconnected (hok : f.isReconnect → f.scheduleClose = .off ∧ success = true) :
    FlagsOk (f.disconnected success) := by
  unfold Flags.disconnected
  split
  case h_1 | h_2 => exact h
  case h_3 hstate => exact h.afterDisconnect hstate hok
  all_goals
    next hstate => exact h.error (by simp [hstate]) hok

/-- `MQTT_EnableClient` with parameters for the instance of the slot, or for an unused
slot. A connection that cannot be started must not clear a close. -/
theorem enableClient {p : ConnParams} (hp : p.inst ≠ invalid)
    (hstate : f.state = .idle ∨ f.state = .errorRetrying)
    (hok : f.state = .errorRetrying → p.enable → success = true ∨ f.scheduleClose = .off) :
    FlagsOk (f.enableClient p success) := by
  have hawaiting : f.state ≠ .awaitingDisconnect := by
    rcases hstate with hstate | hstate <;> simp [hstate]
  have hflag : f.isReconnect = false := by
    rw [Bool.eq_false_iff]
    exact fun hflag => hawaiting (h.flag hflag)
  have hclose := h.toCloseOk.enableClient p hawaiting success
  dsimp only [Flags.enableClient] at hclose ⊢
  split
  · next henable =>
    rw [if_pos henable] at hclose
    split
    · next hsuccess =>
      rw [if_pos hsuccess] at hclose
      exact
        { toCloseOk := hclose
          unused := fun hinst => absurd hinst hp
          flag := fun hset => absurd hset (by simp [Flags.enable, Flags.note, hflag])
          up := fun _ _ => rfl
          idle := fun hidle => absurd hidle (by simp [Flags.enable, Flags.note])
          nextInst := rfl
          latest := fun _ => rfl
          current := fun _ => rfl
          served := h.served }
    · next hsuccess =>
      rw [if_neg hsuccess] at hclose
      have hlast : f.state = .idle → f.ledger.last ≠ some true := by
        intro hidle
        by_cases hoff : f.scheduleClose = .off
        · exact (h.idle hidle hoff).2
        · simp [h.close hoff]
      exact
        { toCloseOk := hclose
          unused := fun hinst => absurd hinst hp
          flag := fun hset => absurd hset (by simp [Flags.enable, Flags.note, hflag])
          up := fun hidle _ =>
            have hretrying := hstate.resolve_left hidle
            h.up hidle ((hok hretrying henable).resolve_left hsuccess)
          idle := fun hidle _ => ⟨rfl, hlast hidle⟩
          nextInst := rfl
          latest := fun _ => rfl
          current := fun _ => rfl
          served := h.served }
  · next henable =>
    rw [if_neg henable] at hclose
    exact
      { toCloseOk := hclose
        unused := fun hinst => absurd hinst hp
        flag := fun hset => absurd hset (by simp [Flags.note, hflag])
        up := h.up
        idle := h.idle
        nextInst := rfl
        latest := fun _ => rfl
        current := fun _ => rfl
        served := h.served }

theorem disable (hinst : f.inst ≠ invalid) : FlagsOk f.disable where
  toCloseOk := h.toCloseOk.disable
  unused := fun hinvalid => absurd hinvalid hinst
  flag := h.flag
  up := fun _ hoff => absurd hoff (by simp [Flags.disable])
  idle := fun _ hoff => absurd hoff (by simp [Flags.disable])
  nextInst := h.nextInst
  latest := h.latest
  current := h.current
  served := h.served

/-- A reconnect is not requested for a client that is idle and stays so. -/
theorem request (hinst : f.inst ≠ invalid) (hok : f.state = .idle → f.scheduleClose ≠ .off)
    (p : ConnParams) : FlagsOk (f.request p) where
  toCloseOk := h.toCloseOk.request p
  unused := fun hinvalid => absurd hinvalid hinst
  flag := h.flag
  up := h.up
  idle := fun hidle hoff => absurd hoff (hok hidle)
  nextInst := rfl
  latest := fun _ => rfl
  current := fun hoff => absurd hoff (by simp [Flags.request])
  served := h.served

theorem activate : FlagsOk f.activate := by
  have hreconnect : FlagsOk f.activateReconnect := by
    unfold Flags.activateReconnect
    split
    · next hsignalled =>
      have hnot : f.scheduleReconnect ≠ .off := by simp [hsignalled]
      exact
        { toCloseOk := ⟨h.awaiting, h.close, h.orderly⟩
          unused := fun hinst => absurd (h.unused hinst).2.1 hnot
          flag := h.flag
          up := h.up
          idle := fun hidle hoff => absurd (h.idle hidle hoff).1 hnot
          nextInst := h.nextInst
          latest := h.latest
          current := fun hoff => absurd hoff (by simp)
          served := h.served }
    · exact h
  have hclose := h.toCloseOk.activate
  dsimp only [Flags.activate] at hclose ⊢
  split
  · next hsignalled =>
    rw [if_pos hsignalled] at hclose
    have hnot : f.activateReconnect.scheduleClose ≠ .off := by simp [hsignalled]
    exact
      { toCloseOk := hclose
        unused := fun hinst => absurd (hreconnect.unused hinst).2.2.1 hnot
        flag := hreconnect.flag
        up := fun _ hoff => absurd hoff (by simp)
        idle := fun _ hoff => absurd hoff (by simp)
        nextInst := hreconnect.nextInst
        latest := hreconnect.latest
        current := hreconnect.current
        served := hreconnect.served }
  · exact hreconnect

/-- An attempt while no other parameters wait, or before any reconnect was activated. -/
theorem connect (hstate : f.state ≠ .idle)
    (hok : f.scheduleReconnect = .off ∨ f.nextArgs = f.args ∨ f.ledger.activated = false) :
    FlagsOk (f.note (.connect f.args)) where
  toCloseOk := ⟨h.awaiting, h.close, h.orderly⟩
  unused := h.unused
  flag := h.flag
  up := h.up
  idle := h.idle
  nextInst := h.nextInst
  latest := h.latest
  current := h.current
  served := by
    have hlatest := h.latest (h.inUse hstate)
    have hargs : f.ledger.activated = false ∨ f.nextArgs = f.args := by
      rcases hok with hoff | hargs | hactivated
      · exact .inr (h.current hoff).symm
      · exact .inr hargs
      · exact .inl hactivated
    simp only [Flags.note, Ledger.after, h.served, hlatest, Bool.true_and, Bool.or_eq_true,
      Bool.not_eq_true', Option.some.injEq, decide_eq_true_eq]
    exact hargs

end

end FlagsOk

/-! ## What is not a request -/

/-- The last request of enable and disable is the same, and the slot is for the same
instance or is given up. -/
structure SameRequest (f f' : Flags) : Prop where
  last : f'.ledger.last = f.ledger.last
  inst : f'.inst = f.inst ∨ f'.inst = invalid

namespace SameRequest

variable (f : Flags)

theorem refl : SameRequest f f := ⟨rfl, .inl rfl⟩

theorem trans {f f₁ f₂ : Flags} (h₁ : SameRequest f f₁) (h₂ : SameRequest f₁ f₂) :
    SameRequest f f₂ := by
  refine ⟨h₂.last.trans h₁.last, ?_⟩
  rcases h₂.inst with hsame | hgone
  · rw [hsame]
    exact h₁.inst
  · exact .inr hgone

theorem clean (isReconnect : Bool) : SameRequest f (f.clean isReconnect) := by
  cases isReconnect <;> exact ⟨rfl, .inr rfl⟩

theorem takeNext {f : Flags} (h : f.nextInst = f.inst) : SameRequest f f.takeNext := ⟨rfl, .inl h⟩

theorem enable (success : Bool) : SameRequest f (f.enable success) := ⟨rfl, .inl rfl⟩

theorem afterDisconnect {f : Flags} (h : f.nextInst = f.inst) (success : Bool) :
    SameRequest f (f.afterDisconnect success) := by
  unfold Flags.afterDisconnect
  split
  · exact ⟨rfl, .inl h⟩
  · exact clean f false

theorem retry : SameRequest f f.retry := ⟨rfl, .inl rfl⟩

theorem error {f : Flags} (h : f.nextInst = f.inst) (success : Bool) :
    SameRequest f (f.error success) := by
  unfold Flags.error
  split
  · exact afterDisconnect h success
  · exact retry f

theorem reconnect {f : Flags} (h : f.nextInst = f.inst) (socket success : Bool) :
    SameRequest f (f.reconnect socket success) := by
  have henable := (takeNext h).trans (enable f.takeNext success)
  unfold Flags.reconnect
  split
  case h_1 | h_2 => exact henable
  case h_3 => exact ⟨rfl, .inl rfl⟩
  all_goals
    split
    · exact ⟨rfl, .inl rfl⟩
    · exact henable

theorem close (socket queueEmpty : Bool) : SameRequest f (f.close socket queueEmpty) := by
  unfold Flags.close
  split
  case h_1 => exact ⟨rfl, .inl rfl⟩
  case h_2 | h_3 | h_4 => exact clean f false
  all_goals
    split
    · cases socket <;> exact ⟨rfl, .inl rfl⟩
    · exact refl f

theorem disconnected {f : Flags} (h : f.nextInst = f.inst) (success : Bool) :
    SameRequest f (f.disconnected success) := by
  unfold Flags.disconnected
  split
  case h_1 | h_2 => exact refl f
  case h_3 => exact afterDisconnect h success
  all_goals exact error h success

theorem activate : SameRequest f f.activate := by
  dsimp only [Flags.activate, Flags.activateReconnect]
  split <;> split <;> exact ⟨rfl, .inl rfl⟩

end SameRequest

end MqttFlags
