import SdtTr369.MessageHandler
import SdtTr369.ProgramFrames

/-!
# The controller of the current message

The instance of the controller that sent a record is noted when the record is
validated and taken back when its message has been processed. A record that comes
to no message in between leaves it behind.
-/

namespace CurrentController

open UspTypes EffectProgram UspRecord SarVector DataModelRead ControllerTable E2eContext Option
open MessageHandler
open RunHistory (run RunMeets run_keeps)

/-- The session takes the message `call` out of a record with this content. -/
inductive HandsOn : Option E2eSession → Content → Handled → Prop
  | unbound (payload : Bytes) :
    HandsOn none (.noSessionContext (some payload)) (.direct payload)
  | free (s : E2eSession) (payload : Bytes) (hmode : s.mode ≠ .require) (hdown : s.status = .down) :
    HandsOn (some s) (.noSessionContext (some payload)) (.direct payload)
  | whole (s : E2eSession) (ctx : SessionContextRecord) (payload : Bytes)
      (hfault : contextFault s ctx = none) (hpayload : ctx.payload = [payload])
      (hfull : payload ≠ []) (hsar : ctx.payloadSarState = .none) :
    HandsOn (some s) (.sessionContext (some ctx)) (.direct payload)
  | last (s : E2eSession) (ctx : SessionContextRecord) (payload buf : Bytes)
      (segments : SarVector.Vector) (hfault : contextFault s ctx = none)
      (hpayload : ctx.payload = [payload]) (hfull : payload ≠ [])
      (hsar : ctx.payloadSarState = .complete)
      (happend : (takeOver ctx s).receivedPayloads.append (segmentOf ctx payload) = some segments)
      (hbuf : segments.serialize = some buf) :
    HandsOn (some s) (.sessionContext (some ctx)) (.reassembled buf)

/-- What was handed on: the one message, or nothing if there is none. -/
def HandedOn (s : E2eSession) (content : Content) (handled : List Handled) : Prop :=
  (∃ call, HandsOn (some s) content call ∧ handled = [call]) ∨
    (∀ call, ¬HandsOn (some s) content call) ∧ handled = []

/-! ## Sessions -/

variable (event : E2eEvent) {m : E2eContext.Act Unit} {cont : Controller} {rec : Received}

section Sessions

variable {H : Host} {w : SessionWorld} {ctx : SessionContextRecord} {payload : Bytes}
  {record : Record}

/-- Nothing was handed on. -/
def SameCalls (w w' : SessionWorld) : Prop := w'.handled = w.handled

theorem queueBinaryMessage_sameCalls (item : MtpSendItem) (w : SessionWorld) :
    Keeps True (E2eContext.queueBinaryMessage H item) w (SameCalls w) :=
  keeps_mono (queueBinaryMessage_queues (P := fun _ => True) H trivial w) fun _ h => h.handled

theorem queueUspRecord_sameCalls (endpointId : Str) (msg : Bytes) (w : SessionWorld) :
    Keeps True (queueUspRecord H endpointId msg) w (SameCalls w) := by
  simp only [Keeps, queueUspRecord, wp_bind, wp_getSession, wp_ite]
  split
  · exact keeps_mono (queueUspSessionRecord_queues H endpointId msg w) fun _ h => h.handled
  · simp only [queueUspNoSessionRecord, wp_bind, wp_require]
    split
    · exact queueBinaryMessage_sameCalls _ _
    · trivial

theorem e2eSessionEvent_sameCalls (w : SessionWorld) :
    Keeps True (E2eContext.e2eSessionEvent H event) w (SameCalls w) := by
  simp only [Keeps, E2eContext.e2eSessionEvent, wp_bind, wp_modifySession, wp_ite, wp_pure,
    wp_read, wp_ignore]
  split
  · rfl
  have hkick : ∀ w₁, SameCalls w w₁ →
      if event = .establishment ∨ event = .restart then
        Keeps True (queueUspRecord H w.endpointId []) w₁ (SameCalls w)
      else SameCalls w w₁ := by
    intro w₁ h₁
    split
    · exact keeps_mono (queueUspRecord_sameCalls _ _ _) fun w₂ h₂ => Eq.trans h₂ h₁
    · exact h₁
  split
  · exact keeps_mono (queueBinaryMessage_sameCalls _ _) fun w₁ h₁ => hkick w₁ h₁
  · exact hkick _ rfl

/-- A session function that hands on the message of a record; when it fails there is none. -/
abbrev Hands (m : E2eContext.Act Unit) (s : E2eSession) (content : Content) (w : SessionWorld) :
    Prop :=
  Wp True m w (fun _ w' => HandedOn s content w'.handled)
    fun _ _ => ∀ call, ¬HandsOn (some s) content call

theorem hands_call {s : E2eSession} {content : Content} {call : Handled}
    (hH : ∀ pbuf, H.handleBinaryMessage pbuf = none) (hempty : w.handled = [])
    (hon : HandsOn (some s) content call) :
    Hands (E2eContext.handleBinaryMessage H call call.pbuf) s content w := by
  simp only [Hands, E2eContext.handleBinaryMessage, wp_bind, wp_update, hH, wp_pure]
  exact .inl ⟨call, hon, by rw [hempty, List.nil_append]⟩

theorem hands_nothing {s : E2eSession} {content : Content} (hempty : w.handled = [])
    (hnot : ∀ call, ¬HandsOn (some s) content call) (hsame : Keeps True m w (SameCalls w)) :
    Hands m s content w :=
  hsame.mono (fun _ _ h => .inr ⟨hnot, h.trans hempty⟩) fun _ _ _ => hnot

section

variable (hH : ∀ pbuf, H.handleBinaryMessage pbuf = none) (hempty : w.handled = [])
include hH hempty

/-- A record without a session context is handed on in a session that is down and not required. -/
theorem noSession_hands (hrecord : record.recordType = .noSessionContext payload) :
    Hands (E2eContext.handleUspRecord H record) w.session (.noSessionContext (some payload)) w := by
  by_cases hfree : w.session.mode ≠ .require ∧ w.session.status = .down
  · obtain ⟨hmode, hdown⟩ := hfree
    simp only [Hands, E2eContext.handleUspRecord, hrecord, wp_bind, wp_attempt,
      validateNoSessionContextHandling, wp_getSession, wp_ite, wp_pure, if_neg hmode, hdown,
      ne_eq, not_true_eq_false, if_false]
    exact hands_call hH hempty (.free w.session payload hmode hdown)
  · have hnot : ∀ call, ¬HandsOn (some w.session) (.noSessionContext (some payload)) call := by
      intro call hon
      cases hon with
      | free _ _ hmode hdown => exact hfree ⟨hmode, hdown⟩
    refine hands_nothing hempty hnot ?_
    simp only [Keeps, E2eContext.handleUspRecord, hrecord, wp_bind, wp_attempt,
      validateNoSessionContextHandling, wp_getSession, wp_ite, wp_fail, wp_pure]
    split
    · exact e2eSessionEvent_sameCalls _ w
    · next hmode =>
      split
      · exact e2eSessionEvent_sameCalls _ w
      · next hdown => exact absurd ⟨hmode, not_not.mp hdown⟩ hfree

/-- A segment that is not the last stays in the session, and with the last one the
message is handed on. -/
theorem store_hands {s : E2eSession} {segments : SarVector.Vector}
    (hfault : contextFault s ctx = none) (hpayload : ctx.payload = [payload])
    (hfull : payload ≠ []) (hsar : ctx.payloadSarState ≠ .none)
    (happend : (takeOver ctx s).receivedPayloads.append (segmentOf ctx payload) = some segments) :
    Hands (storeSegment H ctx segments) s (.sessionContext (some ctx)) w := by
  by_cases hcomplete : ctx.payloadSarState = .complete
  · cases hbuf : segments.serialize with
    | some buf =>
      refine (store_complete hcomplete hbuf).mpr (hands_call hH hempty ?_)
      exact .last s ctx payload buf segments hfault hpayload hfull hcomplete happend hbuf
    | none =>
      simp only [Hands, storeSegment, wp_bind, wp_modifySession, hcomplete, if_true, hbuf, wp_fail]
      intro call hon
      cases hon with
      | whole _ _ _ _ _ _ hwhole => exact hsar hwhole
      | last _ _ payload' buf' segments' _ hpayload' _ _ happend' hbuf' =>
        cases hpayload.symm.trans hpayload'
        cases happend.symm.trans happend'
        cases hbuf.symm.trans hbuf'
  · refine (store_open hcomplete).mpr (.inr ⟨fun call hon => ?_, hempty⟩)
    cases hon with
    | whole _ _ _ _ _ _ hwhole => exact hsar hwhole
    | last _ _ _ _ _ _ _ _ hlast => exact hcomplete hlast

/-- A record with one payload, by what the session makes of it. -/
theorem session_hands (hrecord : record.recordType = .sessionContext ctx)
    (hpayload : ctx.payload = [payload]) :
    Hands (E2eContext.handleUspRecord H record) w.session (.sessionContext (some ctx)) w := by
  cases hfault : contextFault w.session ctx with
  | some err =>
    have hnot : ∀ call, ¬HandsOn (some w.session) (.sessionContext (some ctx)) call := by
      intro call hon
      cases hon with
      | whole _ _ _ hok => cases hfault.symm.trans hok
      | last _ _ _ _ _ hok => cases hfault.symm.trans hok
    refine hands_nothing hempty hnot ?_
    simp only [Keeps, E2eContext.handleUspRecord, hrecord, wp_bind, validateSessionContextHandling,
      wp_getSession, hfault, wp_fail]
    exact e2eSessionEvent_sameCalls _ w
  | none =>
    refine (handleUspRecord_valid hrecord hfault).mpr ?_
    by_cases hfull : payload = []
    · subst hfull
      refine (handle_empty hpayload).mpr (.inr ⟨fun call hon => ?_, hempty⟩)
      cases hon with
      | whole _ _ payload' _ hpayload' hfull' =>
        cases hpayload.symm.trans hpayload'
        exact hfull' rfl
      | last _ _ payload' _ _ _ hpayload' hfull' =>
        cases hpayload.symm.trans hpayload'
        exact hfull' rfl
    by_cases hsar : ctx.payloadSarState = .none
    · refine (handle_direct hpayload hfull hsar).mpr (hands_call hH hempty ?_)
      exact .whole w.session ctx payload hfault hpayload hfull hsar
    cases happend : (takeOver ctx w.session).receivedPayloads.append (segmentOf ctx payload) with
    | none =>
      have hnot : ∀ call, ¬HandsOn (some w.session) (.sessionContext (some ctx)) call := by
        intro call hon
        cases hon with
        | whole _ _ _ _ _ _ hwhole => exact hsar hwhole
        | last _ _ payload' _ segments' _ hpayload' _ _ happend' =>
          cases hpayload.symm.trans hpayload'
          cases happend.symm.trans happend'
      refine (handle_refused hpayload hfull hsar happend).mpr ?_
      exact hands_nothing hempty hnot (e2eSessionEvent_sameCalls _ _)
    | some segments =>
      refine (handle_stored hpayload hfull hsar happend).mpr ?_
      exact store_hands (w := taken ctx w) hH hempty hfault hpayload hfull hsar happend

end

end Sessions

/-- A session takes at most one message out of a record. -/
theorem HandsOn.unique {session : Option E2eSession} {content : Content} {call call' : Handled}
    (h : HandsOn session content call) (h' : HandsOn session content call') : call = call' := by
  cases h with
  | unbound payload => cases h'; rfl
  | free s payload => cases h'; rfl
  | whole s ctx payload _ hpayload _ hsar =>
    cases h' with
    | whole _ _ _ _ hpayload' => cases hpayload.symm.trans hpayload'; rfl
    | last _ _ _ _ _ _ _ _ hsar' => cases hsar.symm.trans hsar'
  | last s ctx payload buf segments _ hpayload _ hsar happend hbuf =>
    cases h' with
    | whole _ _ _ _ _ _ hsar' => cases hsar.symm.trans hsar'
    | last _ _ _ _ _ _ hpayload' _ _ happend' hbuf' =>
      cases hpayload.symm.trans hpayload'
      cases happend.symm.trans happend'
      cases hbuf.symm.trans hbuf'
      rfl

/-! ## Validation -/

/-- A content that `ValidateUspRecord` lets pass. -/
inductive WellFormed : Content → Prop
  | noSession (payload : Bytes) (hfull : payload ≠ []) :
    WellFormed (.noSessionContext (some payload))
  | session (ctx : SessionContextRecord) (payload : Bytes)
      (hsar : ctx.payloadrecSarState = ctx.payloadSarState) (hpayload : ctx.payload = [payload]) :
    WellFormed (.sessionContext (some ctx))

/-- The record of a known sender passes the checks of `ValidateUspRecord`. -/
structure Accepted (slots : Slots) (fromId : Str) (rec : Received) (mrt : ReplyTo) : Prop where
  answerable : mrt.isReplyToSpecified = true ∨ isMtpConfigured slots fromId mrt.protocol = some true
  plaintext : rec.plaintext = true
  wellFormed : WellFormed rec.content

/-- The variables and the messages processed stay as they are. -/
structure Apart (w w' : World) : Prop where
  curMsg : w'.curMsg = w.curMsg
  processed : w'.processed = w.processed

section Validation

variable {β : Type} {A : Agent β} {w : World} {inst : Nat} {fromId : Str}

theorem apart_frame : IsFrame Apart where
  refl _ := ⟨rfl, rfl⟩
  trans h h' := ⟨h'.curMsg.trans h.curMsg, h'.processed.trans h.processed⟩

theorem withSession_apart (k : Nat) (cont : Controller) (m : E2eContext.Act Unit) :
    Within Apart (withSession k cont m) := by
  intro w
  unfold Keeps Wp withSession
  cases m ⟨cont.endpointId, sessionOf w.table k cont, [], w.table.queued⟩ with
  | none => trivial
  | some x =>
    obtain ⟨r, s⟩ := x
    cases r <;> exact ⟨rfl, rfl⟩

theorem e2eSessionEvent_apart (inst : Nat) :
    Within Apart (MessageHandler.e2eSessionEvent A event inst) := by
  refine within_bind apart_frame (within_read apart_frame _) fun session => ?_
  cases session with
  | none => exact within_pure apart_frame _
  | some session => exact within_ignore (withSession_apart _ _ _)

theorem queueUspDisconnectRecord_apart (reasonCode : Nat) :
    Within Apart (MessageHandler.queueUspDisconnectRecord A fromId reasonCode) := by
  intro w
  simp only [Keeps, Wp, MessageHandler.queueUspDisconnectRecord]
  cases A.queueBinaryMessage w.table.queued _ with
  | none => exact ⟨rfl, rfl⟩
  | some err => exact ⟨rfl, rfl⟩

/-- A check behind the lookup of the sender: it changes nothing when it lets the
record pass, and leaves the variables alone when it does not. -/
abbrev Checks (m : HandlerOp Unit) (P : Prop) (w : World) : Prop :=
  Wp True m w (fun _ w' => w' = w ∧ P) fun _ w' => ¬P ∧ Apart w w'

theorem checks_refused {m : HandlerOp Unit} {P : Prop} {err : Err} (hP : ¬P)
    (hm : Within Apart m) : Checks (do m; Prog.fail err) P w := by
  rw [Checks, wp_bind]
  exact (hm w).mono (fun _ _ h => ⟨hP, h⟩) fun _ _ h => ⟨hP, h⟩

theorem validateSessionContextRecord_checks (inst : Nat) (ctx : Option SessionContextRecord) :
    Checks (MessageHandler.validateSessionContextRecord A inst ctx)
      (WellFormed (.sessionContext ctx)) w := by
  cases ctx with
  | none => exact checks_refused (fun h => by cases h) (e2eSessionEvent_apart _ _)
  | some ctx =>
    by_cases hsar : ctx.payloadrecSarState = ctx.payloadSarState
    · by_cases hlen : ctx.payload.length = 1
      · obtain ⟨payload, hpayload⟩ := List.length_eq_one_iff.mp hlen
        simp only [MessageHandler.validateSessionContextRecord, hsar, hlen, ne_eq,
          not_true_eq_false, if_false]
        exact ⟨rfl, .session ctx payload hsar hpayload⟩
      · simp only [MessageHandler.validateSessionContextRecord, hsar, hlen, ne_eq,
          not_true_eq_false, not_false_eq_true, if_true, if_false]
        refine checks_refused (fun h => ?_) (e2eSessionEvent_apart _ _)
        cases h with
        | session _ payload _ hpayload => exact hlen (by rw [hpayload]; rfl)
    · simp only [MessageHandler.validateSessionContextRecord, ne_eq, hsar, not_false_eq_true,
        if_true]
      exact checks_refused (fun h => by cases h with | session _ _ hsync => exact hsar hsync)
        (e2eSessionEvent_apart _ _)

theorem validateContent_checks (inst : Nat) (fromId : Str) (content : Content) :
    Checks (validateContent A inst fromId content) (WellFormed content) w := by
  cases content with
  | noSessionContext payload =>
    by_cases hempty : payload.getD [] = []
    · simp only [validateContent, hempty, if_true]
      refine ⟨fun h => ?_, apart_frame.refl w⟩
      cases h with
      | noSession payload hfull => exact hfull hempty
    · simp only [validateContent, hempty, if_false]
      cases payload with
      | none => exact absurd rfl hempty
      | some payload => exact ⟨rfl, .noSession payload hempty⟩
  | sessionContext ctx => exact validateSessionContextRecord_checks inst ctx
  | disconnect =>
    exact checks_refused (fun h => by cases h) (queueUspDisconnectRecord_apart _)
  | other =>
    have hnot : ¬WellFormed .other := by rintro ⟨⟩
    exact ⟨hnot, apart_frame.refl w⟩

theorem requireReplyTo_checks (mrt : ReplyTo) :
    Checks (requireReplyTo fromId mrt) (mrt.isReplyToSpecified = true ∨
      isMtpConfigured w.table.slots fromId mrt.protocol = some true) w := by
  unfold requireReplyTo
  split
  · next hspecified => exact ⟨rfl, .inl hspecified⟩
  · next hunspecified =>
    rw [Checks, wp_bind, wp_read]
    cases hmtp : isMtpConfigured w.table.slots fromId mrt.protocol with
    | none => trivial
    | some configured =>
      cases configured with
      | true => exact ⟨rfl, .inr rfl⟩
      | false => exact ⟨fun h => h.elim hunspecified (by simp), apart_frame.refl w⟩

theorem validateFrom_checks (inst : Nat) (fromId : Str) (rec : Received) (mrt : ReplyTo) :
    Checks (validateFrom A inst fromId rec mrt) (Accepted w.table.slots fromId rec mrt) w := by
  rw [Checks, validateFrom, wp_bind]
  refine (requireReplyTo_checks mrt).mono ?_ fun _ w' h => ⟨fun hacc => h.1 hacc.answerable, h.2⟩
  rintro _ w' ⟨hw, hanswer⟩
  rw [hw]
  cases hplain : rec.plaintext with
  | true =>
    refine (validateContent_checks inst fromId rec.content).mono ?_ ?_
    · exact fun _ _ h => ⟨h.1, hanswer, hplain, h.2⟩
    · exact fun _ _ h => ⟨fun hacc => h.1 hacc.wellFormed, h.2⟩
  | false =>
    have hnot : ¬Accepted w.table.slots fromId rec mrt := fun hacc => by
      cases hplain.symm.trans hacc.plaintext
    cases rec.content.isSessionContext with
    | true => exact checks_refused hnot (queueUspDisconnectRecord_apart _)
    | false => exact checks_refused hnot (queueUspDisconnectRecord_apart _)

end Validation

/-! ## Messages -/

/-- The session of the controller with this instance number. -/
def sessionFor (t : Table) (inst : Nat) : Option E2eSession :=
  (findE2eSessionByInstance t.slots inst).map fun slot => sessionOf t slot.1 slot.2

variable {w' : World}

section Messages

variable {β : Type} {A : Agent β} {w : World} {inst role : Nat} {fromId : Str} {mrt : ReplyTo}
  {combined : CombinedRole} {content : Content} {call : Handled}

variable (usp : UspMsg β)

theorem dispatch_apart : Within Apart (dispatch A usp) := by
  have hrun : Within Apart (runHandler A usp) := by
    intro w
    unfold Keeps Wp runHandler
    cases A.handle usp w.curMsg w.table with
    | none => trivial
    | some t => exact ⟨rfl, rfl⟩
  unfold dispatch
  split
  · exact within_fail apart_frame _
  · exact within_fail apart_frame _
  · exact hrun

/-- What the getters give while a message of a sender is processed. -/
def processedFor (call : Handled) (inst : Nat) (combined : CombinedRole) (fromId : Str) :
    Processed := ⟨call, inst, combined, some fromId⟩

theorem handleUspMessage_spec (call : Handled) (w : World) :
    Keeps True (handleUspMessage A usp call) w fun w' => w'.curMsg.controllerInstance = none ∧
      w'.processed = w.processed ++ [⟨call, getMsgControllerInstance w.curMsg,
        getMsgRole w.curMsg, getControllerInfo w.curMsg⟩] := by
  rw [Keeps, handleUspMessage, wp_bind, wp_update, wp_bind, wp_attempt]
  refine (dispatch_apart usp _).mono (fun _ w' h => ?_) fun _ w' h => ?_
  · exact ⟨rfl, h.processed⟩
  · exact ⟨rfl, h.processed⟩

theorem cacheControllerRoleForCurMsg_spec (protocol : MtpProtocol)
    (hrole : getCombinedRoleByEndpointId w.table.slots fromId = some combined) :
    Wp True (MessageHandler.cacheControllerRoleForCurMsg fromId role protocol) w
      (fun _ w' => w' = { w with curMsg :=
        { w.curMsg with combinedRole := combined, controllerInfo := some fromId } })
      fun _ _ => False := by
  rw [MessageHandler.cacheControllerRoleForCurMsg, wp_bind, updateCurMsg, wp_update, wp_bind,
    wp_read]
  dsimp only
  split
  · trivial
  rw [ControllerRoles.cacheControllerRoleForCurMsg, hrole]
  dsimp only
  by_cases hinherited : combined.inherited = role
  · rw [if_pos hinherited]
    rfl
  · rw [if_neg hinherited]
    trivial

/-- How a record of a known sender ends: its message is processed for the sender,
or there is none, and the variables stay as they are. -/
def Ends (A : Agent β) (inst : Nat) (combined : CombinedRole) (fromId : Str)
    (isMessage : Handled → Prop) (w w' : World) : Prop :=
  (∃ call usp, isMessage call ∧ A.unpackMsg call.pbuf = some usp ∧
    w'.curMsg.controllerInstance = none ∧
    w'.processed = w.processed ++ [processedFor call inst combined fromId]) ∨
  (∀ call usp, isMessage call → A.unpackMsg call.pbuf ≠ some usp) ∧ Apart w w'

theorem handleBinaryMessage_ends (hcur : w.curMsg.controllerInstance = some inst)
    (hrole : getCombinedRoleByEndpointId w.table.slots fromId = some combined) :
    Keeps True (MessageHandler.handleBinaryMessage A call role fromId mrt) w
      (Ends A inst combined fromId (· = call) w) := by
  unfold MessageHandler.handleBinaryMessage
  cases husp : A.unpackMsg call.pbuf with
  | none =>
    refine .inr ⟨?_, apart_frame.refl w⟩
    rintro _ usp rfl hsome
    cases husp.symm.trans hsome
  | some usp =>
    rw [Keeps, wp_bind]
    refine (cacheControllerRoleForCurMsg_spec mrt.protocol hrole).mono ?_ fun _ _ h => h.elim
    intro _ w' hw
    refine keeps_mono (handleUspMessage_spec usp call w') fun w'' h => .inl ?_
    refine ⟨call, usp, rfl, husp, h.1, ?_⟩
    rw [h.2, hw]
    simp only [getMsgControllerInstance, hcur, getD_some]
    rfl

theorem Ends.mono {isMessage isMessage' : Handled → Prop} {w'' : World}
    (h : Ends A inst combined fromId isMessage w' w'')
    (heq : ∀ call, isMessage call ↔ isMessage' call) (hapart : Apart w w') :
    Ends A inst combined fromId isMessage' w w'' := by
  rcases h with ⟨call, usp, hon, husp, hcur, hprocessed⟩ | ⟨hnot, hapart'⟩
  · refine .inl ⟨call, usp, (heq call).mp hon, husp, hcur, ?_⟩
    rw [hprocessed, hapart.processed]
  · exact .inr ⟨fun call usp hon => hnot call usp ((heq call).mpr hon),
      apart_frame.trans hapart hapart'⟩

/-- What a session hands on is handled, and nothing else. -/
theorem handled_ends {s : Option E2eSession} {handled : List Handled}
    (hcur : w.curMsg.controllerInstance = some inst)
    (hrole : getCombinedRoleByEndpointId w.table.slots fromId = some combined)
    (hapart : Apart w w') (hslots : w'.table.slots = w.table.slots)
    (hon : (∃ call, HandsOn s content call ∧ handled = [call]) ∨
      (∀ call, ¬HandsOn s content call) ∧ handled = []) :
    Keeps True (Prog.forEach handled fun call =>
        MessageHandler.handleBinaryMessage A call role fromId mrt) w'
      (Ends A inst combined fromId (HandsOn s content) w) := by
  rcases hon with ⟨call, hon, rfl⟩ | ⟨hnot, rfl⟩
  · have hends : Keeps True (MessageHandler.handleBinaryMessage A call role fromId mrt) w'
        (Ends A inst combined fromId (· = call) w') :=
      handleBinaryMessage_ends (by rw [hapart.curMsg, hcur]) (by rw [hslots, hrole])
    have heq : ∀ call', call' = call ↔ HandsOn s content call' := fun call' =>
      ⟨fun h => h ▸ hon, fun h => h.unique hon⟩
    rw [Keeps, Prog.forEach, wp_bind]
    exact hends.mono (fun _ _ h => h.mono heq hapart) fun _ _ h => h.mono heq hapart
  · exact .inr ⟨fun call _ hon => absurd hon (hnot call), hapart⟩

theorem withSession_hands {k : Nat}
    (hm : Hands m (sessionOf w.table k cont) content
      ⟨cont.endpointId, sessionOf w.table k cont, [], w.table.queued⟩) :
    Wp True (withSession k cont m) w
      (fun handled w' => HandedOn (sessionOf w.table k cont) content handled ∧
        Apart w w' ∧ w'.table.slots = w.table.slots)
      fun _ w' => (∀ call, ¬HandsOn (some (sessionOf w.table k cont)) content call) ∧
        Apart w w' := by
  unfold Hands Wp at hm
  unfold Wp withSession
  cases hrun : m ⟨cont.endpointId, sessionOf w.table k cont, [], w.table.queued⟩ with
  | none => trivial
  | some x =>
    obtain ⟨r, s⟩ := x
    rw [hrun] at hm
    cases r with
    | ok _ => exact ⟨hm, ⟨rfl, rfl⟩, rfl⟩
    | error err => exact ⟨hm, rfl, rfl⟩

theorem handleUspRecord_ends (hcur : w.curMsg.controllerInstance = some inst)
    (hrole : getCombinedRoleByEndpointId w.table.slots fromId = some combined)
    (hformed : WellFormed content) :
    Keeps True (MessageHandler.handleUspRecord A fromId content role mrt) w
      (Ends A inst combined fromId (HandsOn (sessionFor w.table inst) content) w) := by
  have hinst : getMsgControllerInstance w.curMsg = inst := by
    rw [getMsgControllerInstance, hcur, getD_some]
  rw [Keeps, MessageHandler.handleUspRecord, wp_bind, wp_read, wp_bind, wp_read, hinst, wp_bind,
    sessionFor]
  cases hsession : findE2eSessionByInstance w.table.slots inst with
  | none =>
    cases hformed with
    | noSession payload =>
      refine handled_ends hcur hrole (apart_frame.refl w) rfl (.inl ⟨_, .unbound payload, rfl⟩)
    | session ctx => trivial
  | some slot =>
    obtain ⟨k, cont⟩ := slot
    cases hformed with
    | noSession payload =>
      refine (withSession_hands (noSession_hands (fun _ => rfl) rfl rfl)).mono ?_ ?_
      · rintro handled w' ⟨hon, hapart, hslots⟩
        exact handled_ends hcur hrole hapart hslots hon
      · rintro _ w' ⟨hnot, hapart⟩
        exact .inr ⟨fun call _ hon => absurd hon (hnot call), hapart⟩
    | session ctx payload _ hpayload =>
      refine (withSession_hands (session_hands (fun _ => rfl) rfl rfl hpayload)).mono ?_ ?_
      · rintro handled w' ⟨hon, hapart, hslots⟩
        exact handled_ends hcur hrole hapart hslots hon
      · rintro _ w' ⟨hnot, hapart⟩
        exact .inr ⟨fun call _ hon => absurd hon (hnot call), hapart⟩

end Messages

/-! ## Records -/

/-- The first enabled controller with the endpoint id. -/
structure SentBy (slots : Slots) (fromId : Str) (cont : Controller) : Prop where
  slot : ∃ k : Nat, slots[k]? = some (some cont) ∧ ∀ j < k, ∀ other : Controller,
    slots[j]? = some (some other) → ¬(other.enable = true ∧ other.endpointId = fromId)
  enabled : cont.enable = true
  endpointId : cont.endpointId = fromId

theorem sender_of_instance {slots : Slots} {fromId : Str} {inst : Nat}
    (h : findInstanceByEndpointId slots fromId = some inst) :
    ∃ cont, SentBy slots fromId cont ∧ cont.inst = inst ∧
      getCombinedRoleByEndpointId slots fromId = some cont.combinedRole := by
  simp only [findInstanceByEndpointId, bind_eq_some_iff, map_eq_some_iff] at h
  obtain ⟨k, hk, cont, hcont, hinst⟩ := h
  obtain ⟨hlt, hmatch, hbefore⟩ := List.findIdx?_eq_some_iff_getElem.mp hk
  have hslot : slots[k]? = some (some cont) := by
    rwa [join_eq_some_iff] at hcont
  rw [List.getElem?_eq_getElem hlt, Option.some.injEq] at hslot
  rw [hslot, any_some, Bool.and_eq_true, decide_eq_true_eq] at hmatch
  refine ⟨cont, ⟨⟨k, ?_, ?_⟩, hmatch.1, hmatch.2⟩, hinst, ?_⟩
  · rw [List.getElem?_eq_getElem hlt, hslot]
  · intro j hj other hother hboth
    have hnot := hbefore j hj
    rw [List.getElem?_eq_getElem (Nat.lt_trans hj hlt), Option.some.injEq] at hother
    rw [hother] at hnot
    simp [hboth.1, hboth.2] at hnot
  · rw [getCombinedRoleByEndpointId, hk, bind_some, hcont, map_some]

/-- A record that is addressed to the agent and names its sender. -/
structure Names {β : Type} (A : Agent β) (pbuf : Bytes) (rec : Received) (fromId : Str) : Prop where
  unpacked : A.unpackRecord pbuf = some rec
  addressed : rec.toId = some A.localEndpoint
  sender : rec.fromId = some fromId
  named : fromId ≠ []

theorem Names.unique {β : Type} {A : Agent β} {pbuf : Bytes} {rec' : Received}
    {fromId fromId' : Str} (h : Names A pbuf rec fromId) (h' : Names A pbuf rec' fromId') :
    rec' = rec ∧ fromId' = fromId := by
  cases h.unpacked.symm.trans h'.unpacked
  cases h.sender.symm.trans h'.sender
  exact ⟨rfl, rfl⟩

/-- The record does not get to the lookup of its sender, its sender is no enabled
controller, or a message comes out of it. -/
inductive Settles {β : Type} (A : Agent β) (t : Table) (pbuf : Bytes) (mrt : ReplyTo) : Prop
  | nameless (h : ∀ rec fromId, ¬Names A pbuf rec fromId)
  | unknown (rec : Received) (fromId : Str) (hnames : Names A pbuf rec fromId)
      (hfind : findInstanceByEndpointId t.slots fromId = none)
  | processed (rec : Received) (fromId : Str) (inst : Nat) (call : Handled) (usp : UspMsg β)
      (hnames : Names A pbuf rec fromId)
      (hfind : findInstanceByEndpointId t.slots fromId = some inst)
      (haccepted : Accepted t.slots fromId rec mrt)
      (hon : HandsOn (sessionFor t inst) rec.content call)
      (husp : A.unpackMsg call.pbuf = some usp)

/-- The message came in a record of this controller, out of the session of this
controller, and the getters gave its instance, its roles and its endpoint id. -/
def Attributed {β : Type} (A : Agent β) (t : Table) (pbuf : Bytes) (p : Processed) : Prop :=
  ∃ rec fromId cont, Names A pbuf rec fromId ∧ SentBy t.slots fromId cont ∧
    HandsOn (sessionFor t cont.inst) rec.content p.call ∧
    p.controllerInstance = cont.inst ∧ p.role = cont.combinedRole ∧ p.controllerInfo = some fromId

section Record

variable {β : Type} {A : Agent β} {w : World} {pbuf : Bytes} {role : Nat} {mrt : ReplyTo}

/-- The world when the sender has been looked up. -/
def noted (inst : Option Nat) (w : World) : World :=
  { w with curMsg := { w.curMsg with controllerInstance := inst } }

/-- How the handling of a record ends. -/
inductive RecordEnds (A : Agent β) (pbuf : Bytes) (mrt : ReplyTo) (w : World) : World → Prop
  | nameless (h : ∀ rec fromId, ¬Names A pbuf rec fromId) : RecordEnds A pbuf mrt w w
  | unknown (rec : Received) (fromId : Str) (hnames : Names A pbuf rec fromId)
      (hfind : findInstanceByEndpointId w.table.slots fromId = none) :
    RecordEnds A pbuf mrt w (noted none w)
  | known (rec : Received) (fromId : Str) (cont : Controller) (w' : World)
      (hnames : Names A pbuf rec fromId)
      (hfind : findInstanceByEndpointId w.table.slots fromId = some cont.inst)
      (hsender : SentBy w.table.slots fromId cont)
      (hends : Ends A cont.inst cont.combinedRole fromId (fun call =>
        Accepted w.table.slots fromId rec mrt ∧
          HandsOn (sessionFor w.table cont.inst) rec.content call) (noted (some cont.inst) w) w') :
    RecordEnds A pbuf mrt w w'

/-- The record of a known sender, from the lookup on. -/
theorem known_ends {fromId : Str} (hfrom : rec.fromId = some fromId)
    (hrole : getCombinedRoleByEndpointId w.table.slots fromId = some cont.combinedRole) :
    Keeps True (do
        validateFrom A cont.inst fromId rec mrt
        MessageHandler.handleUspRecord A (rec.fromId.getD []) rec.content role mrt)
      (noted (some cont.inst) w)
      (Ends A cont.inst cont.combinedRole fromId (fun call =>
        Accepted w.table.slots fromId rec mrt ∧
          HandsOn (sessionFor w.table cont.inst) rec.content call) (noted (some cont.inst) w)) := by
  rw [Keeps, wp_bind, hfrom, getD_some]
  refine (validateFrom_checks cont.inst fromId rec mrt).mono ?_ ?_
  · rintro _ w' ⟨hw, haccepted⟩
    rw [hw]
    have hends : Keeps True (MessageHandler.handleUspRecord A fromId rec.content role mrt)
        (noted (some cont.inst) w) _ := handleUspRecord_ends rfl hrole haccepted.wellFormed
    refine keeps_mono hends fun w'' h => h.mono (fun call => ?_) (apart_frame.refl _)
    exact ⟨fun hon => ⟨haccepted, hon⟩, fun hon => hon.2⟩
  · rintro _ w' ⟨hnot, hapart⟩
    exact .inr ⟨fun call usp hon => absurd hon.1 hnot, hapart⟩

theorem handleBinaryRecord_ends :
    Keeps True (MessageHandler.handleBinaryRecord A pbuf role mrt) w (RecordEnds A pbuf mrt w) := by
  unfold MessageHandler.handleBinaryRecord
  cases hrec : A.unpackRecord pbuf with
  | none => exact .nameless fun rec fromId h => by cases hrec.symm.trans h.unpacked
  | some rec =>
    have hsame : ∀ {rec' fromId}, Names A pbuf rec' fromId → rec' = rec := fun h =>
      Option.some.inj (h.unpacked.symm.trans hrec)
    rw [Keeps, wp_bind, validateUspRecord]
    by_cases hto : rec.toId = some A.localEndpoint
    · rw [if_neg (not_not.mpr hto)]
      cases hfrom : rec.fromId with
      | none =>
        refine .nameless fun rec' fromId h => ?_
        cases hsame h
        cases hfrom.symm.trans h.sender
      | some fromId =>
        cases fromId with
        | nil =>
          refine .nameless fun rec' fromId h => ?_
          cases hsame h
          exact h.named (Option.some.inj (h.sender.symm.trans hfrom))
        | cons c fromId =>
          have hnames : Names A pbuf rec (c :: fromId) := ⟨hrec, hto, hfrom, by simp⟩
          cases hfind : findInstanceByEndpointId w.table.slots (c :: fromId) with
          | none =>
            simp only [wp_bind, wp_read, updateCurMsg, wp_update, hfind, wp_fail]
            exact .unknown rec _ hnames hfind
          | some inst =>
            obtain ⟨cont, hsender, rfl, hrole⟩ := sender_of_instance hfind
            simp only [wp_bind, wp_read, updateCurMsg, wp_update, hfind]
            have hends : Keeps True (do
                validateFrom A cont.inst (c :: fromId) rec mrt
                MessageHandler.handleUspRecord A (rec.fromId.getD []) rec.content role mrt)
                (noted (some cont.inst) w) _ := known_ends hfrom hrole
            rw [Keeps, wp_bind, hfrom] at hends
            refine hends.mono ?_ ?_
            · exact fun _ w' h => h.mono (fun _ w'' h' => .known rec _ cont w'' hnames hfind hsender h')
                fun _ w'' h' => .known rec _ cont w'' hnames hfind hsender h'
            · exact fun _ w' h => .known rec _ cont w' hnames hfind hsender h
    · rw [if_pos hto]
      refine .nameless fun rec' fromId h => ?_
      cases hsame h
      exact hto h.addressed

/-- The exact condition for one record. -/
theorem idle_iff_settles (hidle : w.curMsg.controllerInstance = none)
    (h : RecordEnds A pbuf mrt w w') :
    w'.curMsg.controllerInstance = none ↔ Settles A w.table pbuf mrt := by
  cases h with
  | nameless h => exact ⟨fun _ => .nameless h, fun _ => hidle⟩
  | unknown rec fromId hnames hfind => exact ⟨fun _ => .unknown rec fromId hnames hfind, fun _ => rfl⟩
  | known rec fromId cont _ hnames hfind hsender hends =>
    rcases hends with ⟨call, usp, ⟨haccepted, hon⟩, husp, hcur, -⟩ | ⟨hnot, hapart⟩
    · refine ⟨fun _ => ?_, fun _ => hcur⟩
      exact .processed rec fromId cont.inst call usp hnames hfind haccepted hon husp
    · have hcur : w'.curMsg.controllerInstance = some cont.inst := by rw [hapart.curMsg]; rfl
      refine ⟨fun hnone => absurd (hcur.symm.trans hnone) (by simp), fun hsettles => ?_⟩
      cases hsettles with
      | nameless h => exact absurd hnames (h rec fromId)
      | unknown rec' fromId' hnames' hfind' =>
        obtain ⟨rfl, rfl⟩ := hnames.unique hnames'
        cases hfind.symm.trans hfind'
      | processed rec' fromId' inst call usp hnames' hfind' haccepted hon husp =>
        obtain ⟨rfl, rfl⟩ := hnames.unique hnames'
        cases hfind.symm.trans hfind'
        exact absurd husp (hnot call usp ⟨haccepted, hon⟩)

theorem attributed_of_ends (h : RecordEnds A pbuf mrt w w') :
    w'.processed = w.processed ∨
      ∃ p, w'.processed = w.processed ++ [p] ∧ Attributed A w.table pbuf p := by
  cases h with
  | nameless h => exact .inl rfl
  | unknown rec fromId hnames hfind => exact .inl rfl
  | known rec fromId cont _ hnames hfind hsender hends =>
    rcases hends with ⟨call, usp, ⟨-, hon⟩, -, -, hprocessed⟩ | ⟨-, hapart⟩
    · exact .inr ⟨_, hprocessed, rec, fromId, cont, hnames, hsender, hon, rfl, rfl, rfl⟩
    · exact .inl hapart.processed

end Record

/-! ## Runs -/

/-- The current controller is `INVALID`. -/
def Idle (w : World) : Prop := w.curMsg.controllerInstance = none

/-- A record comes in, or the rest of the agent does something between messages. -/
inductive Event where
  | record (pbuf : Bytes) (role : Nat) (mrt : ReplyTo)
  | work (f : Table → Option Table)

def step {β : Type} (A : Agent β) (event : Event) (w : World) : Option World :=
  match event with
  | .record pbuf role mrt => (MessageHandler.handleBinaryRecord A pbuf role mrt w).map Prod.snd
  | .work f => (f w.table).map fun t => { w with table := t }

/-- The condition on an event. -/
def Meets {β : Type} (A : Agent β) (w : World) : Event → Prop
  | .record pbuf _ mrt => Settles A w.table pbuf mrt
  | .work _ => True

/-- The current controller is `INVALID` after every event of the run. -/
def IdleThroughout {β : Type} (A : Agent β) (events : List Event) (w : World) : Prop :=
  ∀ before after s, events = before ++ after → run (step A) before w = some s → Idle s

/-- A record of the run has at most one message processed, for its sender. -/
def RightlyAttributed {β : Type} (A : Agent β) (events : List Event) (w : World) : Prop :=
  ∀ before pbuf role mrt after s s', events = before ++ .record pbuf role mrt :: after →
    run (step A) before w = some s → step A (.record pbuf role mrt) s = some s' →
    s'.processed = s.processed ∨
      ∃ p, s'.processed = s.processed ++ [p] ∧ Attributed A s.table pbuf p

section Runs

variable {β : Type} {A : Agent β} {events : List Event} {w s : World}

theorem record_step {pbuf : Bytes} {role : Nat} {mrt : ReplyTo}
    (h : step A (.record pbuf role mrt) w = some w') : RecordEnds A pbuf mrt w w' := by
  simp only [step, map_eq_some_iff] at h
  obtain ⟨⟨r, w''⟩, hrun, rfl⟩ := h
  exact keeps_of_run handleBinaryRecord_ends hrun

theorem step_idle_iff {event : Event} (hidle : Idle w) (h : step A event w = some w') :
    Idle w' ↔ Meets A w event := by
  cases event with
  | record pbuf role mrt => exact idle_iff_settles hidle (record_step h)
  | work f =>
    simp only [step, map_eq_some_iff] at h
    obtain ⟨t, -, rfl⟩ := h
    exact ⟨fun _ => trivial, fun _ => hidle⟩

theorem idleThroughout_of_meets (hidle : Idle w)
    (hmeets : RunMeets (step A) (Meets A) events w) : IdleThroughout A events w := by
  rintro before after s rfl hrun
  have hkeeps : ∀ s event s', Idle s → Meets A s event → step A event s = some s' → Idle s' :=
    fun s event s' hs hmeets hstep => (step_idle_iff hs hstep).mpr hmeets
  exact run_keeps hkeeps hidle hmeets.of_append hrun

theorem meets_of_idleThroughout (hrun : run (step A) events w = some s)
    (hidle : IdleThroughout A events w) : RunMeets (step A) (Meets A) events w := by
  induction events using List.reverseRecOn generalizing s with
  | nil => trivial
  | append_singleton events event ih =>
    rw [RunHistory.run_snoc, bind_eq_some_iff] at hrun
    obtain ⟨s₀, hs₀, hstep⟩ := hrun
    have hbefore : IdleThroughout A events w := fun before after s' hsplit hs' =>
      hidle before (after ++ [event]) s' (by rw [hsplit, List.append_assoc]) hs'
    refine (RunHistory.runMeets_snoc hs₀).mpr ⟨ih hs₀ hbefore, ?_⟩
    have hfirst : Idle s₀ := hidle events [event] s₀ rfl hs₀
    refine (step_idle_iff hfirst hstep).mp (hidle (events ++ [event]) [] s (by simp) ?_)
    rw [RunHistory.run_snoc, hs₀]
    exact hstep

/-- In every run, the current controller is `INVALID` after every event exactly if
every record in it settles; and every message is processed for the sender of its
record. -/
theorem idle_throughout_iff (hfirst : Idle w)
    (hrun : run (step A) events w = some s) :
    (IdleThroughout A events w ↔ RunMeets (step A) (Meets A) events w) ∧
      RightlyAttributed A events w := by
  refine ⟨⟨meets_of_idleThroughout hrun, idleThroughout_of_meets hfirst⟩, ?_⟩
  intro before pbuf role mrt after s₁ s₂ _ _ hstep
  exact attributed_of_ends (record_step hstep)

end Runs

/-! ## A session that is opened -/

def sender : Controller where
  inst := 2
  enable := true
  endpointId := ['c']
  mtps := []
  periodicBase := 0
  periodicInterval := 0
  combinedRole := ⟨roleDefault, roleDefault⟩
  session := ⟨.allow, 0⟩
  subsRetryMinWaitInterval := 0
  subsRetryIntervalMultiplier := 0

def replyTo : ReplyTo := ⟨true, .mqtt⟩

/-- The record that opens a session, with an empty payload. -/
def openingContext : SessionContextRecord where
  sessionId := 2
  sequenceId := 1
  expectedId := 1
  retransmitId := 0
  payloadSarState := .none
  payloadrecSarState := .none
  payload := [[]]

def receivedFrom (content : Content) : Received := ⟨some ['a'], some ['c'], true, content⟩

/-- The byte 0 is a record with a message, the byte 1 opens a session. -/
def listener : Agent Unit where
  localEndpoint := ['a']
  unpackRecord := fun pbuf =>
    if pbuf = [0] then some (receivedFrom (.noSessionContext (some [7])))
    else if pbuf = [1] then some (receivedFrom (.sessionContext (some openingContext)))
    else none
  unpackMsg := fun _ => some ⟨some .get, ()⟩
  queueBinaryMessage := fun _ _ => none
  handle := fun _ _ t => some t

def listening : World where
  table :=
    { slots := [some sender]
      sessions := fun _ => addedSession .allow 0
      queued := [] }
  curMsg := noMessage
  processed := []

/-- A message, then work between messages, then bytes that are no record. -/
def settledRun : List Event :=
  [.record [0] roleDefault replyTo, .work some, .record [2] roleDefault replyTo]

theorem settledRun_meets : RunMeets (step listener) (Meets listener) settledRun listening := by
  refine ⟨?_, fun _ _ => ⟨trivial, fun _ _ => ⟨.nameless ?_, fun _ _ => trivial⟩⟩⟩
  · refine .processed (receivedFrom (.noSessionContext (some [7]))) ['c'] 2 (.direct [7])
      ⟨some .get, ()⟩ ⟨rfl, rfl, rfl, by simp⟩ rfl ⟨.inl rfl, rfl, .noSession [7] (by simp)⟩ ?_ rfl
    exact .free _ [7] (by decide) rfl
  · intro rec fromId h
    exact absurd h.unpacked (by simp [listener])

theorem idle_throughout_iff_settledRun :
    IdleThroughout listener settledRun listening ∧
      RightlyAttributed listener settledRun listening := by
  have hrun : (run (step listener) settledRun listening).isSome = true := by decide
  obtain ⟨s, hs⟩ := isSome_iff_exists.mp hrun
  have hfirst : Idle listening := rfl
  obtain ⟨hiff, hattributed⟩ := idle_throughout_iff hfirst hs
  exact ⟨hiff.mpr settledRun_meets, hattributed⟩

/-- The controller opens a session. -/
def openingRun : List Event := [.record [1] roleDefault replyTo]

/-- The record that opens a session is valid and carries no message: its controller
stays the current one, and the work that follows is done in its name. -/
theorem opened_session_stays_current :
    (MessageHandler.handleBinaryRecord listener [1] roleDefault replyTo listening).map
        (fun r => r.1.isOk) = some true ∧
      (run (step listener) openingRun listening).map
        (fun s => getMsgControllerInstance s.curMsg) = some 2 ∧
      ¬IdleThroughout listener openingRun listening := by
  have hcur : (run (step listener) openingRun listening).map
      (fun s => s.curMsg.controllerInstance) = some (some 2) := by decide
  refine ⟨by decide, by decide, fun hidle => ?_⟩
  obtain ⟨s, hs, hinst⟩ := map_eq_some_iff.mp hcur
  have hnone : Idle s := hidle openingRun [] s (by simp) hs
  cases hinst.symm.trans hnone

end CurrentController
