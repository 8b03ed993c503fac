import Mathlib.Data.List.DropRight
import SdtTr369.DiagnosticCommands
import SdtTr369.SeparatorCuts

/-!
# The arguments of events

The commands of `vendor_event.c` put their arguments behind the name of their event, with `###` in
between, and `Event` on the Java side cuts the text again. A native text takes as many cells as its
UTF-8 form has octets; `NewStringUTF` gives its characters to Java.
-/

namespace EventArguments

open UspTypes DiagnosticCommands SeparatorCuts List
open OperationArgs (Args)

/-! ## The native side -/

def nativeLength (text : Str) : Nat := (text.map Char.utf8Size).sum

/-- `strcat` of one text after the other, into `param`. No result is a write behind its end. -/
def appendParam : Str → List Str → Option Str
  | param, [] => some param
  | param, part :: parts =>
    if nativeLength (param ++ part) < eventParamLen then appendParam (param ++ part) parts else none

/-- The name of an event, and the arguments in the order in which they are put behind it. -/
structure EventForm where
  event : Str
  inputs : List Str
  deriving DecidableEq

/-- `SK_TR369_Start_UploadFile` -/
def uploadFile : EventForm :=
  ⟨DiagnosticCommands.uploadFile.event, DiagnosticCommands.uploadFile.inputs⟩

/-- `SK_TR369_Start_UpgradeFile` -/
def upgradeFile : EventForm := ⟨"UpgradeFile".toList, ["Url".toList, "FileType".toList]⟩

/-- `SK_TR369_Start_DownloadFile` -/
def downloadFile : EventForm := ⟨"DownloadFile".toList, ["Url".toList, "FileType".toList]⟩

/-- `SK_TR369_Start_IPPing` -/
def ipPing : EventForm := ⟨DiagnosticCommands.ipPing.event, DiagnosticCommands.ipPing.inputs⟩

/-- `SK_TR369_Start_DownloadDiagnostics` -/
def downloadDiagnostics : EventForm :=
  ⟨DiagnosticCommands.downloadDiagnostics.event, DiagnosticCommands.downloadDiagnostics.inputs⟩

/-- The commands that pass arguments. -/
def forms : List EventForm :=
  [uploadFile, upgradeFile, downloadFile, ipPing, downloadDiagnostics]

def EventForm.values (c : EventForm) (inputArgs : Args) : List Str :=
  c.inputs.map (argGet inputArgs)

/-- What is sent as an event, where no value is empty. -/
def EventForm.send (c : EventForm) (inputArgs : Args) : Option (Except Err Str) :=
  let values := c.values inputArgs
  if [] ∈ values then some (.error .invalidValue)
  else
    (appendParam (c.event ++ separator) (values.intersperse separator)).map Except.ok

/-! ## The Java side -/

/-- `String.split` with the limit 0: empty pieces at the end are dropped, and a text without the
separator is its own piece. -/
def javaSplit (value : Str) : List Str :=
  match cut separator value with
  | [piece] => [piece]
  | pieces => pieces.rdropWhile (· = [])

/-- `String.split` with the limit 2. -/
def javaSplitOnce (value : Str) : List Str :=
  match cut separator value with
  | piece :: _ :: _ => [piece, value.drop (piece.length + separator.length)]
  | _ => [value]

inductive Handler
  | reboot
  | factoryReset
  | upload
  | downloadFile
  | upgradeSw
  | ping
  | traceRoute
  | calcNetSpeed
  | handleShortMessage
  deriving DecidableEq, Repr

/-- The cases of the switch, with the number of arguments a handler takes. -/
def commands : List (Str × Handler × Nat) :=
  [("Reboot".toList, .reboot, 0), ("FactoryReset".toList, .factoryReset, 0),
    ("UploadFile".toList, .upload, 3), ("DownloadFile".toList, .downloadFile, 2),
    ("UpgradeFile".toList, .upgradeSw, 2), ("IPPing".toList, .ping, 4),
    ("TraceRoute".toList, .traceRoute, 0), ("DownloadDiagnostics".toList, .calcNetSpeed, 2),
    ("ShortMessage".toList, .handleShortMessage, 1)]

/-- What a handler takes from the pieces, unless there are too few of them. -/
def takeParams (n : Nat) (params : List Str) : Option (List Str) :=
  if params.length ≤ n then none else some (params.tail.take n)

/-- `SK_TR369_SetEventParams`: the handler that is run, and what it takes. -/
def setEventParams (value : Str) : Option (Handler × List Str) :=
  if value = [] then none
  else
    match javaSplit value with
    | [] => none
    | command :: params =>
      match commands.lookup command with
      | none => none
      | some (.handleShortMessage, n) =>
        (takeParams n (javaSplitOnce value)).map (.handleShortMessage, ·)
      | some (handler, n) => (takeParams n (command :: params)).map (handler, ·)

/-- The handlers of the commands that pass arguments. -/
def EventForm.handler (c : EventForm) : Option Handler := (commands.lookup c.event).map Prod.fst

/-- The text fits, and the handler of the command takes the values as they were sent. -/
def EventForm.Delivered (c : EventForm) (inputArgs : Args) : Prop :=
  ∃ text handler, c.send inputArgs = some (.ok text) ∧ c.handler = some handler ∧
    setEventParams text = some (handler, c.values inputArgs)

/-! ## The separator -/

theorem separator_ne_nil : separator ≠ [] := by decide

/-- No separator begins before the one behind a text, exactly when none is in it and its last
character is not one of the separator's. -/
theorem not_infix_behind_iff (p : Str) :
    ¬ separator <:+: p ++ separator.dropLast ↔ ¬ separator <:+: p ∧ p.getLast? ≠ some '#' := by
  have hsep : separator = ['#'] ++ ['#'] ++ ['#'] := by decide
  have hback : separator.dropLast = ['#'] ++ ['#'] := by decide
  have hone : ∀ q : Str, separator <:+ q ++ ['#'] ↔ ['#'] ++ ['#'] <:+ q := fun q => by
    rw [hsep, suffix_concat_iff]
    constructor
    · rintro (h | ⟨t, ht, hq⟩)
      · cases h
      · rwa [append_cancel_right ht]
    · exact fun h => .inr ⟨_, rfl, h⟩
  have htwo : ∀ q : Str, ['#'] ++ ['#'] <:+ q ++ ['#'] ↔ ['#'] <:+ q := fun q => by
    rw [suffix_concat_iff]
    constructor
    · rintro (h | ⟨t, ht, hq⟩)
      · cases h
      · rwa [append_cancel_right ht]
    · exact fun h => .inr ⟨_, rfl, h⟩
  have hlast : ['#'] <:+ p ↔ p.getLast? = some '#' := by
    rw [getLast?_eq_some_iff]
    exact ⟨fun ⟨t, ht⟩ => ⟨t, ht.symm⟩, fun ⟨t, ht⟩ => ⟨t, ht.symm⟩⟩
  have hmore : ['#'] ++ ['#'] <:+ p → ['#'] <:+ p := (suffix_append ['#'] ['#']).trans
  rw [hback, ← append_assoc, infix_concat_iff, infix_concat_iff, hone, htwo, hone,
    Ne, ← hlast]
  constructor
  · intro h
    exact ⟨fun hwithin => h (.inr (.inr hwithin)), fun hend => h (.inl hend)⟩
  · rintro ⟨hwithin, hend⟩ (h | h | h)
    · exact hend h
    · exact hend (hmore h)
    · exact hwithin h

/-- The values between the separators can be told apart. -/
def Separable (values : List Str) : Prop :=
  (∀ value ∈ values, ¬ separator <:+: value) ∧ ∀ value ∈ values.dropLast, value.getLast? ≠ some '#'

variable {values : List Str} {event : Str} {c : EventForm}

theorem clean_iff (h : values ≠ []) : Clean separator values ↔ Separable values := by
  induction values with
  | nil => exact (h rfl).elim
  | cons value values ih =>
    cases values with
    | nil => simp [Clean, Separable]
    | cons next values =>
      rw [Clean, ih (cons_ne_nil next values), not_infix_behind_iff, Separable, Separable,
        dropLast_cons_cons]
      constructor
      · rintro ⟨⟨hsep, hend⟩, hseps, hends⟩
        exact ⟨List.forall_mem_cons.mpr ⟨hsep, hseps⟩, List.forall_mem_cons.mpr ⟨hend, hends⟩⟩
      · rintro ⟨hseps, hends⟩
        obtain ⟨hsep, hseps⟩ := List.forall_mem_cons.mp hseps
        obtain ⟨hend, hends⟩ := List.forall_mem_cons.mp hends
        exact ⟨⟨hsep, hend⟩, hseps, hends⟩

theorem separable_event_iff (hevent : '#' ∉ event) (hne : values ≠ []) :
    Separable (event :: values) ↔ Separable values := by
  have hsep : ¬ separator <:+: event := fun hwithin => hevent (hwithin.subset (by decide))
  have hlast : event.getLast? ≠ some '#' := fun hlast => hevent (mem_of_getLast? hlast)
  cases values with
  | nil => exact (hne rfl).elim
  | cons value values =>
    rw [Separable, Separable, dropLast_cons_cons]
    constructor
    · exact fun h => ⟨(List.forall_mem_cons.mp h.1).2, (List.forall_mem_cons.mp h.2).2⟩
    · exact fun h => ⟨List.forall_mem_cons.mpr ⟨hsep, h.1⟩, List.forall_mem_cons.mpr ⟨hlast, h.2⟩⟩

/-! ## The text -/

def joined (event : Str) (values : List Str) : Str := separator.intercalate (event :: values)

theorem nativeLength_append (s t : Str) :
    nativeLength (s ++ t) = nativeLength s + nativeLength t := by
  rw [nativeLength, map_append, sum_append]
  rfl

theorem appendParam_eq {param : Str} {parts : List Str} (h : nativeLength param < eventParamLen) :
    appendParam param parts =
      if nativeLength (param ++ parts.flatten) < eventParamLen then some (param ++ parts.flatten)
      else none := by
  induction parts generalizing param with
  | nil => simp [appendParam, h]
  | cons part parts ih =>
    rw [appendParam, flatten_cons, ← append_assoc]
    split
    · next hlt => exact ih hlt
    · next hge =>
      rw [if_neg]
      rw [nativeLength_append]
      omega

theorem joined_eq (h : values ≠ []) :
    event ++ separator ++ (values.intersperse separator).flatten = joined event values := by
  rw [joined]
  cases values with
  | nil => exact (h rfl).elim
  | cons value values => rw [intercalate_cons_cons]; rfl

/-- Where no value is empty, it is the joined text that is sent if it fits. -/
theorem send_eq {inputArgs : Args} (hname : nativeLength (c.event ++ separator) < eventParamLen)
    (hinputs : c.inputs ≠ []) (hvalues : [] ∉ c.values inputArgs) :
    c.send inputArgs =
      if nativeLength (joined c.event (c.values inputArgs)) < eventParamLen then
        some (.ok (joined c.event (c.values inputArgs)))
      else none := by
  have hne : c.values inputArgs ≠ [] := fun h => hinputs (List.map_eq_nil_iff.mp h)
  rw [EventForm.send]
  simp only [if_neg hvalues]
  rw [appendParam_eq hname, joined_eq hne]
  split
  · rfl
  · rfl

/-! ## What the handlers take -/

theorem joined_append (event : Str) (values more : List Str) :
    joined event (values ++ more) = joined event values ++ more.flatMap (separator ++ ·) := by
  rw [joined, joined, HexText.intercalate_cons_flatMap, HexText.intercalate_cons_flatMap,
    flatMap_append, append_assoc]

/-- The pieces that are dropped were empty. -/
theorem javaSplit_cut (value : Str) (h : 2 ≤ (javaSplit value).length) :
    ∃ blanks, cut separator value = javaSplit value ++ blanks := by
  rw [javaSplit] at h ⊢
  split
  · next piece hcut =>
    rw [hcut] at h
    simp at h
  · exact ⟨_, (List.rdropWhile_append_rtakeWhile ..).symm⟩

/-- A text is split into what was joined exactly when the pieces can be told apart. -/
theorem javaSplit_joined (hne : values ≠ []) (hvalues : [] ∉ values)
    (hsep : Separable (event :: values)) : javaSplit (joined event values) = event :: values := by
  have hcut := cut_join separator_ne_nil ((clean_iff (cons_ne_nil event values)).mpr hsep)
  rw [javaSplit, joined, hcut]
  cases values with
  | nil => exact (hne rfl).elim
  | cons value values =>
    have hlast : ∀ h, decide ((event :: value :: values).getLast h = []) = false := by
      intro h
      rw [decide_eq_false_iff_not]
      intro hnil
      apply hvalues
      rw [← hnil, getLast_cons (cons_ne_nil value values)]
      exact getLast_mem _
    exact List.rdropWhile_eq_self_iff.mpr fun h => by simpa using hlast h

theorem separable_of_javaSplit {more : List Str} (hne : values ≠ [])
    (h : javaSplit (joined event values) = event :: (values ++ more)) :
    Separable (event :: values) := by
  have htwo : 2 ≤ (javaSplit (joined event values)).length := by
    have hpos := length_pos_of_ne_nil hne
    rw [h, length_cons, length_append]
    omega
  obtain ⟨blanks, hblanks⟩ := javaSplit_cut _ htwo
  have hjoin := join_cut separator_ne_nil (joined event values)
  rw [hblanks, h, cons_append, append_assoc, ← joined, joined_append] at hjoin
  have hnothing : more ++ blanks = [] := by
    cases hmore : more ++ blanks with
    | nil => rfl
    | cons piece pieces =>
      have hlength := congrArg List.length hjoin
      have hthree : separator.length = 3 := rfl
      rw [hmore, length_append, flatMap_cons, length_append, length_append]
        at hlength
      omega
  rw [← clean_iff (cons_ne_nil event values), ← cut_join_iff separator_ne_nil, ← joined,
    hblanks, h, cons_append, append_assoc, hnothing, append_nil]

theorem rdropWhile_cons {α : Type} {p : α → Bool} {a : α} (h : p a = false) (xs : List α) :
    (a :: xs).rdropWhile p = a :: xs.rdropWhile p := by
  induction xs using List.reverseRecOn with
  | nil => exact rdropWhile_concat_neg p [] a (by simp [h])
  | append_singleton xs x ih =>
    rw [← cons_append, rdropWhile_concat, rdropWhile_concat, ih]
    split <;> rfl

/-- The pieces behind the name of the event. -/
def paramPieces (values : List Str) : List Str :=
  (cut separator (separator.intercalate values)).rdropWhile (· = [])

theorem javaSplit_event (hevent : '#' ∉ event) (hempty : event ≠ []) (hne : values ≠ []) :
    javaSplit (joined event values) = event :: paramPieces values := by
  have hclean : ¬ separator <:+: event ++ separator.dropLast := by
    rw [not_infix_behind_iff]
    exact ⟨fun hwithin => hevent (hwithin.subset (by decide)),
      fun hlast => hevent (mem_of_getLast? hlast)⟩
  have hcut : cut separator (joined event values) =
      event :: cut separator (separator.intercalate values) := by
    cases values with
    | nil => exact (hne rfl).elim
    | cons value values =>
      rw [joined, intercalate_cons_cons]
      exact cut_append separator_ne_nil hclean _
  have hmore := cut_ne_nil separator_ne_nil (separator.intercalate values)
  rw [javaSplit, hcut, paramPieces]
  split
  · next hone => exact (hmore (List.cons.inj hone).2).elim
  · exact rdropWhile_cons (by simpa using hempty) _

/-- What the proofs need of a command. -/
structure EventForm.Known (c : EventForm) (handler : Handler) : Prop where
  name : nativeLength (c.event ++ separator) < eventParamLen
  inputs : c.inputs ≠ []
  plain : '#' ∉ c.event
  nonempty : c.event ≠ []
  case : commands.lookup c.event = some (handler, c.inputs.length)
  direct : handler ≠ .handleShortMessage

theorem known_forms (hc : c ∈ forms) : ∃ handler, c.Known handler := by
  simp only [forms, mem_cons, not_mem_nil, or_false] at hc
  obtain rfl | rfl | rfl | rfl | rfl := hc
  · exact ⟨.upload, by decide, by decide, by decide, by decide, by decide, by decide⟩
  · exact ⟨.upgradeSw, by decide, by decide, by decide, by decide, by decide, by decide⟩
  · exact ⟨.downloadFile, by decide, by decide, by decide, by decide, by decide, by decide⟩
  · exact ⟨.ping, by decide, by decide, by decide, by decide, by decide, by decide⟩
  · exact ⟨.calcNetSpeed, by decide, by decide, by decide, by decide, by decide, by decide⟩

/-- The handler of the command takes as many pieces as the command has arguments. -/
theorem setEventParams_joined {handler : Handler} (h : c.Known handler)
    (hlength : values.length = c.inputs.length) :
    setEventParams (joined c.event values) =
      if (paramPieces values).length < values.length then none
      else some (handler, (paramPieces values).take values.length) := by
  have hne : values ≠ [] := fun hnil => by
    rw [hnil] at hlength
    exact h.inputs (List.length_eq_zero_iff.mp hlength.symm)
  have htext : joined c.event values ≠ [] := fun hnil => by
    rw [joined, HexText.intercalate_cons_flatMap, append_eq_nil_iff] at hnil
    exact h.nonempty hnil.1
  have htake : ∀ params : List Str, takeParams c.inputs.length (c.event :: params) =
      if params.length < values.length then none else some (params.take values.length) := by
    intro params
    rw [takeParams, hlength]
    exact if_congr Nat.succ_le_iff rfl rfl
  rw [setEventParams, if_neg htext, javaSplit_event h.plain h.nonempty hne]
  dsimp only
  rw [h.case]
  have hdirect := h.direct
  cases handler with
  | handleShortMessage => exact (hdirect rfl).elim
  | _ =>
    dsimp only
    rw [htake]
    split <;> rfl

/-- The values of a command reach the handler as they were sent exactly when the whole text fits,
no value has the separator in it, and none but the last ends with a character of it. -/
theorem delivered_iff {c : EventForm} (hc : c ∈ forms) {inputArgs : Args}
    (hvalues : [] ∉ c.values inputArgs) :
    c.Delivered inputArgs ↔
      nativeLength (joined c.event (c.values inputArgs)) < eventParamLen ∧
        Separable (c.values inputArgs) := by
  obtain ⟨handler, hknown⟩ := known_forms hc
  have hlength : (c.values inputArgs).length = c.inputs.length := length_map ..
  have hne : c.values inputArgs ≠ [] := fun h => hknown.inputs (List.map_eq_nil_iff.mp h)
  have hsend := send_eq hknown.name hknown.inputs hvalues
  have hhandler : c.handler = some handler := by rw [EventForm.handler, hknown.case]; rfl
  have hset := setEventParams_joined hknown hlength
  have hsplit := javaSplit_event hknown.plain hknown.nonempty hne
  constructor
  · rintro ⟨text, handler', hsent, _, hreceived⟩
    rw [hsend] at hsent
    split at hsent
    · next hfits =>
      cases hsent
      rw [hset] at hreceived
      split at hreceived
      · cases hreceived
      · obtain ⟨_, htaken⟩ := Prod.mk.inj (Option.some.inj hreceived)
        have hcut := take_append_drop (c.values inputArgs).length
          (paramPieces (c.values inputArgs))
        rw [htaken] at hcut
        rw [← hcut] at hsplit
        have hsep := separable_of_javaSplit hne hsplit
        exact ⟨hfits, (separable_event_iff hknown.plain hne).mp hsep⟩
    · cases hsent
  · rintro ⟨hfits, hsep⟩
    have hpieces := javaSplit_joined hne hvalues ((separable_event_iff hknown.plain hne).mpr hsep)
    rw [hsplit] at hpieces
    have hall : paramPieces (c.values inputArgs) = c.values inputArgs := (List.cons.inj hpieces).2
    rw [hall, if_neg (Nat.lt_irrefl _), take_length] at hset
    exact ⟨_, handler, hsend.trans (if_pos hfits), hhandler, hset⟩

def pingArgs : Args :=
  [("Host".toList, "#1".toList), ("DataBlockSize".toList, "56".toList),
    ("NumberOfRepetitions".toList, "4".toList), ("Timeout".toList, "1000#".toList)]

theorem delivered_iff_ping : ipPing ∈ forms ∧ [] ∉ ipPing.values pingArgs ∧
    (ipPing.Delivered pingArgs ↔
      nativeLength (joined ipPing.event (ipPing.values pingArgs)) < eventParamLen ∧
        Separable (ipPing.values pingArgs)) :=
  ⟨by decide, by decide +kernel, delivered_iff (by decide) (by decide +kernel)⟩

/-- An address with an empty fragment. -/
def fragmentArgs : Args :=
  [("FileType".toList, "1".toList), ("Url".toList, "http://h/a#".toList)]

/-- The character at the end of the address goes over to the file type. -/
theorem fragment_moves :
    upgradeFile ∈ forms ∧ [] ∉ upgradeFile.values fragmentArgs ∧
      upgradeFile.send fragmentArgs = some (.ok "UpgradeFile###http://h/a####1".toList) ∧
      setEventParams "UpgradeFile###http://h/a####1".toList =
        some (.upgradeSw, ["http://h/a".toList, "#1".toList]) ∧
      ¬ upgradeFile.Delivered fragmentArgs := by
  have hsend : upgradeFile.send fragmentArgs =
      some (.ok "UpgradeFile###http://h/a####1".toList) := by decide +kernel
  have hset : setEventParams "UpgradeFile###http://h/a####1".toList =
      some (.upgradeSw, ["http://h/a".toList, "#1".toList]) := by decide +kernel
  refine ⟨by decide, by decide +kernel, hsend, hset, ?_⟩
  rintro ⟨text, handler, hsent, _, hreceived⟩
  rw [hsend] at hsent
  cases hsent
  rw [hset] at hreceived
  have hvalues := (Prod.mk.inj (Option.some.inj hreceived)).2
  have hother : upgradeFile.values fragmentArgs ≠ ["http://h/a".toList, "#1".toList] := by
    decide +kernel
  exact hother hvalues.symm

end EventArguments
