import SdtTr369.CBuffers
import SdtTr369.OperationArgs

/-!
# Diagnostic commands

The sync commands of `vendor_event.c` hand their arguments to the Java side as one text and
then copy what it has left into buffers on their stack: results in the database through
`SK_TR369_GetDBParam`, which is not told the size of the buffer, and the hops of a trace through
`SK_TR369_Callback_Get`, which does not always write one. No result of the two is looked at.
-/

namespace DiagnosticCommands

open UspTypes Schema DecimalText PathCodec EffectProgram Agent DataModel DataModelRead CBuffers List
open OperationArgs (Args)

/-- What the Java side does with an event, and its answer to a Get. -/
structure JavaSide where
  event : Str → State → State
  reply : Str → Option CString

/-- What is left in the cells of a variable where it is declared: those of the function, and
those inside the loop at each turn. -/
structure Stack where
  frame : Str → Nat → Char
  hop : Nat → Str → Nat → Char

def declare (cells : Str → Nat → Char) (name : Str) (size : Nat) : Buffer :=
  (List.range size).map (cells name)

section Reads

variable (S : DmTree) (W : World)

/-- What `SK_TR369_GetDBParam` finds: no such parameter of the database, no value to print,
or a value. -/
inductive DbRead where
  | unresolved (e : Err)
  | blank (e : Option Err)
  | value (text : Str)
  deriving DecidableEq, Repr

def DbRead.error : DbRead → Option Err
  | .unresolved e => some e
  | .blank e => e
  | .value _ => none

/-- The value that was stored. -/
def DbRead.stored : DbRead → Option Str
  | .unresolved _ | .blank _ => none
  | .value text => some text

/-- What becomes of the buffer, whatever its size. -/
def DbRead.fill (buf : Buffer) : DbRead → Option Buffer
  | .unresolved _ => some buf
  | .blank _ => copyString buf []
  | .value text => copyString buf text

def readDbParam (param : Str) : Op DbRead :=
  match formDbFromPath S param with
  | .error e => pure (.unresolved e)
  | .ok key => do
    if ← isSecurePath S W param then pure (.blank none)
    else
      match ← .attempt (databaseGetParameterValue W key maxDmValueLen false) with
      | .ok (some value) => pure (.value value)
      | .ok none => pure (.blank (some .objectDoesNotExist))
      | .error e => pure (.blank (some e))

/-- `SK_TR369_GetDBParam` -/
def getDbParam (param : Str) (value : Buffer) : Op (Option Err × Option Buffer) := do
  let found ← readDbParam S W param
  pure (found.error, found.fill value)

/-- A variable that a result is read into. -/
structure Read where
  name : Str
  param : Str
  size : Nat
  deriving DecidableEq, Repr

/-- The calls of `SK_TR369_GetDBParam` in a command. -/
def readAll (cells : Str → Nat → Char) : List Read → Op (List (Str × Option Buffer))
  | [] => pure []
  | r :: reads => do
    let (_, buf) ← getDbParam S W r.param (declare cells r.name r.size)
    let rest ← readAll cells reads
    pure ((r.name, buf) :: rest)

end Reads

/-- `USP_ARG_Get` with the default `""`. -/
def argGet (args : Args) (key : Str) : Str := (args.lookup key).getD []

/-- The calls of `USP_ARG_Add`, after those of `SK_TR369_GetDBParam`. -/
def addAll (frame : List (Str × Option Buffer)) (names : List Str) : Option Args :=
  if (frame.map Prod.snd).all Option.isSome then
    allInside (names.map fun name =>
      ((frame.lookup name).join.bind readString).map fun value => (name, value))
  else none

def separator : Str := "###".toList

/-- The size of `param`. -/
def eventParamLen : Nat := 1024

/-- A command whose results are all in the database: the name of its event, the arguments that
go into the text, the reads, and the arguments in the order in which they are added. -/
structure EventCommand where
  event : Str
  inputs : List Str
  reads : List Read
  outputs : List Str
  perm : outputs.Perm (reads.map (·.name))
  nodup : outputs.Nodup
  room : ∀ r ∈ reads, 0 < r.size
  short : (event ++ separator).length < eventParamLen

/-- A read of the parameter `prefix.name`. -/
def readOf (top name : String) (size : Nat) : Read := ⟨name.toList, (top ++ name).toList, size⟩

/-- `SK_TR369_Start_UploadFile` -/
def uploadFile : EventCommand where
  event := "UploadFile".toList
  inputs := ["FileType".toList, "DelaySeconds".toList, "Url".toList]
  reads := [readOf "Device.X_Skyworth.UploadResponse." "Status" 16,
    readOf "Device.X_Skyworth.UploadResponse." "Message" 256]
  outputs := ["Status".toList, "Message".toList]
  perm := by decide
  nodup := by decide
  room := by decide
  short := by decide

/-- `SK_TR369_Start_IPPing` -/
def ipPing : EventCommand where
  event := "IPPing".toList
  inputs := ["Host".toList, "DataBlockSize".toList, "NumberOfRepetitions".toList,
    "Timeout".toList]
  reads := [readOf "Device.IP.Diagnostics.IPPing." "Status" 16,
    readOf "Device.IP.Diagnostics.IPPing." "IPAddressUsed" 16,
    readOf "Device.IP.Diagnostics.IPPing." "SuccessCount" 8,
    readOf "Device.IP.Diagnostics.IPPing." "FailureCount" 8,
    readOf "Device.IP.Diagnostics.IPPing." "AverageResponseTime" 8,
    readOf "Device.IP.Diagnostics.IPPing." "MinimumResponseTime" 8,
    readOf "Device.IP.Diagnostics.IPPing." "MaximumResponseTime" 8,
    readOf "Device.IP.Diagnostics.IPPing." "AverageResponseTimeDetailed" 16,
    readOf "Device.IP.Diagnostics.IPPing." "MinimumResponseTimeDetailed" 16,
    readOf "Device.IP.Diagnostics.IPPing." "MaximumResponseTimeDetailed" 16]
  outputs := ["Status".toList, "SuccessCount".toList, "FailureCount".toList,
    "AverageResponseTime".toList, "MinimumResponseTime".toList, "MaximumResponseTime".toList,
    "AverageResponseTimeDetailed".toList, "MinimumResponseTimeDetailed".toList,
    "MaximumResponseTimeDetailed".toList, "IPAddressUsed".toList]
  perm := by decide
  nodup := by decide
  room := by decide
  short := by decide

/-- `SK_TR369_Start_DownloadDiagnostics` -/
def downloadDiagnostics : EventCommand where
  event := "DownloadDiagnostics".toList
  inputs := ["DownloadURL".toList, "TimeBasedTestDuration".toList]
  reads := [readOf "Device.IP.Diagnostics.DownloadDiagnostics." "Status" 32,
    readOf "Device.IP.Diagnostics.DownloadDiagnostics." "BOMTime" 32,
    readOf "Device.IP.Diagnostics.DownloadDiagnostics." "EOMTime" 32,
    readOf "Device.IP.Diagnostics.DownloadDiagnostics." "TestBytesReceived" 16]
  outputs := ["Status".toList, "BOMTime".toList, "EOMTime".toList, "TestBytesReceived".toList]
  perm := by decide
  nodup := by decide
  room := by decide
  short := by decide

section Commands

variable (S : DmTree) (W : World) (java : JavaSide)

/-- The body that these commands share. -/
def EventCommand.start (c : EventCommand) (stack : Stack) (inputArgs : Args) : Op (Option Args) :=
  let values := c.inputs.map (argGet inputArgs)
  if [] ∈ values then .fail .invalidValue
  else
    match appendAll eventParamLen (c.event ++ separator) (values.intersperse separator) with
    | none => pure none
    | some param => do
      .update (java.event param)
      let frame ← readAll S W stack.frame c.reads
      pure (addAll frame c.outputs)

def tracePath : Str := "Device.IP.Diagnostics.TraceRoute.".toList

def traceReads : List Read :=
  [readOf "Device.IP.Diagnostics.TraceRoute." "Status" 32,
    readOf "Device.IP.Diagnostics.TraceRoute." "ResponseTime" 16]

/-- `SK_TR369_Callback_Get`, whose code is always 0; the Java side answers `null` with `none`. -/
def callbackGet (reply : Option CString) (dst : Buffer) : Buffer :=
  match reply with
  | none => dst
  | some text => fillString dst text.val

def routeHops : Str := "RouteHops.".toList

def hopPath (instance' : Int) (field : Str) : Str :=
  routeHops ++ intDigits instance' ++ '.' :: field

def hopFields : List Str := ["Host".toList, "HostAddress".toList, "RTTimes".toList]

/-- The size of the variables in the loop. -/
def hopLen : Nat := 32

/-- One argument of a hop, from its path to the call of `USP_ARG_Add`. -/
def hopArg (cells : Str → Nat → Char) (instance' : Int) (field : Str) : Option (Str × Str) :=
  let outputPath := clip hopLen (hopPath instance' field)
  let path := clip maxDmPath (tracePath ++ outputPath)
  (readString (callbackGet (java.reply path) (declare cells field hopLen))).map fun value =>
    (outputPath, value)

/-- The loop of `SK_TR369_Start_TraceRoute` from its turn `i`. -/
def hopArgs (stack : Stack) : Nat → List Int → List (Option (Str × Str))
  | _, [] => []
  | i, n :: iv => hopFields.map (hopArg java (stack.hop i) n) ++ hopArgs stack (i + 1) iv

/-- `SK_TR369_SetDBParam`, whose result is not looked at. -/
def setDbParam (name : String) (value : Str) : Op Unit :=
  .ignore (setParameterInDatabase S W (tracePath ++ name.toList) value)

/-- `SK_TR369_Start_TraceRoute` up to `SK_TR369_API_SendEvent`. -/
def sendTraceRoute (host timeout maxHopCount : Str) : Op Unit := do
  setDbParam S W "Host" host
  setDbParam S W "Timeout" timeout
  setDbParam S W "MaxHopCount" maxHopCount
  .update (java.event "TraceRoute".toList)

/-- `SK_TR369_Start_TraceRoute` -/
def startTraceRoute (stack : Stack) (inputArgs : Args) : Op (Option Args) :=
  let host := argGet inputArgs "Host".toList
  let timeout := argGet inputArgs "Timeout".toList
  let maxHopCount := argGet inputArgs "MaxHopCount".toList
  if host = [] ∨ timeout = [] ∨ maxHopCount = [] then .fail .invalidValue
  else do
    sendTraceRoute S W java host timeout maxHopCount
    let frame ← readAll S W stack.frame traceReads
    match addAll frame (traceReads.map (·.name)) with
    | none => pure none
    | some outputArgs => do
      let iv ← getInstances S W (tracePath ++ "RouteHops".toList)
      pure ((allInside (hopArgs java stack 0 iv)).map (outputArgs ++ ·))

/-- The commands. -/
inductive Command where
  | uploadFile
  | ipPing
  | traceRoute
  | downloadDiagnostics
  deriving DecidableEq, Repr

def Command.start (stack : Stack) (inputArgs : Args) : Command → Op (Option Args)
  | .uploadFile => DiagnosticCommands.uploadFile.start S W java stack inputArgs
  | .ipPing => DiagnosticCommands.ipPing.start S W java stack inputArgs
  | .traceRoute => startTraceRoute S W java stack inputArgs
  | .downloadDiagnostics => DiagnosticCommands.downloadDiagnostics.start S W java stack inputArgs

/-! ## What a command should answer -/

/-- The arguments are the expected ones in their order; one without a value may be empty or
left out. -/
structure Answers (expected : List (Str × Option Str)) (args : Args) : Prop where
  sound : args.Sublist (expected.map fun e => (e.1, e.2.getD []))
  complete : (expected.filterMap fun e => e.2.map fun value => (e.1, value)).Sublist args

/-- What the reads find. -/
def lookups : List Read → Op (List (Read × DbRead))
  | [] => pure []
  | r :: reads => do
    let found ← readDbParam S W r.param
    let rest ← lookups reads
    pure ((r, found) :: rest)

/-- The value stored for an argument. -/
def storedAs (found : List (Read × DbRead)) (name : Str) : Option Str :=
  ((found.map fun x => (x.1.name, x.2.stored)).lookup name).join

def expectedOf (found : List (Read × DbRead)) (names : List Str) : List (Str × Option Str) :=
  names.map fun name => (name, storedAs found name)

/-- The text that is handed to the Java side. -/
def EventCommand.param (c : EventCommand) (inputArgs : Args) : Str :=
  c.event ++ separator ++ ((c.inputs.map (argGet inputArgs)).intersperse separator).flatten

/-- The values that the Java side leaves behind. -/
def EventCommand.results (c : EventCommand) (inputArgs : Args) : Op (List (Str × Option Str)) := do
  .update (java.event (c.param inputArgs))
  let found ← lookups S W c.reads
  pure (expectedOf found c.outputs)

def expectedHops (iv : List Int) : List (Str × Option Str) :=
  iv.flatMap fun n => hopFields.map fun field =>
    (hopPath n field, (java.reply (tracePath ++ hopPath n field)).map Subtype.val)

def traceResults (inputArgs : Args) : Op (List (Str × Option Str)) := do
  sendTraceRoute S W java (argGet inputArgs "Host".toList) (argGet inputArgs "Timeout".toList)
    (argGet inputArgs "MaxHopCount".toList)
  let found ← lookups S W traceReads
  let iv ← getInstances S W (tracePath ++ "RouteHops".toList)
  pure (expectedOf found (traceReads.map (·.name)) ++ expectedHops java iv)

def Command.results (inputArgs : Args) : Command → Op (List (Str × Option Str))
  | .uploadFile => DiagnosticCommands.uploadFile.results S W java inputArgs
  | .ipPing => DiagnosticCommands.ipPing.results S W java inputArgs
  | .traceRoute => traceResults S W java inputArgs
  | .downloadDiagnostics => DiagnosticCommands.downloadDiagnostics.results S W java inputArgs

/-- Whatever is left on the stack, a run of `start` that returns no error stays inside the
buffers and answers with the values that `results` finds. -/
def Right (start : Stack → Op (Option Args)) (results : Op (List (Str × Option Str)))
    (a : State) : Prop :=
  ∀ stack out a', start stack a = some (.ok out, a') →
    ∃ args expected, out = some args ∧ results a = some (.ok expected, a') ∧ Answers expected args

/-- The path of the result is one of the database, and its value is shorter than the buffer. -/
def Read.Fits (r : Read) : DbRead → Prop
  | .unresolved _ => False
  | .blank _ => True
  | .value text => text.length < r.size

/-- The names of the hop's arguments are not cut off, and the Java side has an answer for each
of them that is shorter than the buffer. -/
def HopFits (n : Int) : Prop :=
  (intDigits n).length ≤ 9 ∧ ∀ field ∈ hopFields, ∃ text,
    java.reply (tracePath ++ hopPath n field) = some text ∧ text.val.length < hopLen

def EventCommand.Fits (c : EventCommand) (inputArgs : Args) (a : State) : Prop :=
  [] ∈ c.inputs.map (argGet inputArgs) ∨
    (c.param inputArgs).length < eventParamLen ∧
      ∀ found a', lookups S W c.reads (java.event (c.param inputArgs) a) = some (.ok found, a') →
        ∀ x ∈ found, x.1.Fits x.2

def TraceFits (inputArgs : Args) (a : State) : Prop :=
  let host := argGet inputArgs "Host".toList
  let timeout := argGet inputArgs "Timeout".toList
  let maxHopCount := argGet inputArgs "MaxHopCount".toList
  (host = [] ∨ timeout = [] ∨ maxHopCount = []) ∨
    ∀ sent found a', sendTraceRoute S W java host timeout maxHopCount a = some (.ok (), sent) →
      lookups S W traceReads sent = some (.ok found, a') →
        (∀ x ∈ found, x.1.Fits x.2) ∧
          ∀ iv a'', getInstances S W (tracePath ++ "RouteHops".toList) a' = some (.ok iv, a'') →
            ∀ n ∈ iv, HopFits java n

/-- The condition for each command, on the state in which it begins. -/
def Command.Fits (inputArgs : Args) (a : State) : Command → Prop
  | .uploadFile => DiagnosticCommands.uploadFile.Fits S W java inputArgs a
  | .ipPing => DiagnosticCommands.ipPing.Fits S W java inputArgs a
  | .traceRoute => TraceFits S W java inputArgs a
  | .downloadDiagnostics => DiagnosticCommands.downloadDiagnostics.Fits S W java inputArgs a

end Commands

/-! ## Reads -/

section Proofs

variable {S : DmTree} {W : World} {java : JavaSide} {cells : Str → Nat → Char}

theorem declare_length (name : Str) (size : Nat) : (declare cells name size).length = size := by
  simp [declare]

/-- Cells that hold no terminator. -/
def junk : Str → Nat → Char := fun _ _ => 'x'

theorem nul_not_mem_junk (name : Str) (size : Nat) : nul ∉ declare junk name size := by
  intro h
  obtain ⟨i, _, hx⟩ := List.mem_map.mp h
  have hne : junk name i ≠ nul := by
    show 'x' ≠ nul
    decide
  exact hne hx

theorem databaseGet_clean (key : Key) (bufLen : Nat) (a : State) :
    Wp True (databaseGetParameterValue W key bufLen false) a
      (fun found _ => ∀ text, found = some text → nul ∉ text) (fun _ _ => True) := by
  simp only [databaseGetParameterValue, wp_bind, wp_call]
  split
  · trivial
  · rw [wp_read]
    intro text htext hmem
    obtain ⟨value, _, rfl⟩ := Option.map_eq_some_iff.mp htext
    simpa [nul] using mem_takeWhile_imp hmem

variable {a a' sent : State} {n : Int} {field : Str} {stack : Stack} {c : EventCommand}
  {inputArgs : Args}

/-- A value of the database has no terminator among its characters. -/
theorem readDbParam_clean {param : Str} {found : DbRead}
    (h : readDbParam S W param a = some (.ok found, a')) :
    ∀ text, found = .value text → nul ∉ text := by
  have hpost : Wp True (readDbParam S W param) a (fun found _ => ∀ text, found = .value text →
      nul ∉ text) (fun _ _ => True) := by
    unfold readDbParam
    split
    · intro text htext
      cases htext
    · next key _ =>
      rw [wp_bind]
      refine (wp_true _ _).mono (fun isSecure a₁ _ => ?_) fun _ _ _ => trivial
      cases isSecure with
      | true =>
        intro text htext
        cases htext
      | false =>
        simp only [Bool.false_eq_true, if_false, wp_bind, wp_attempt]
        refine (databaseGet_clean key maxDmValueLen a₁).mono (fun value _ hclean => ?_) fun _ _ _ => ?_
        · cases value with
          | none =>
            intro text htext
            cases htext
          | some value =>
            intro text htext
            cases htext
            exact hclean value rfl
        · intro text htext
          cases htext
  exact (hpost.of_run h).1 found rfl

/-- What the buffers become. -/
def frameOf (cells : Str → Nat → Char) (found : List (Read × DbRead)) : List (Str × Option Buffer) :=
  found.map fun x => (x.1.name, x.2.fill (declare cells x.1.name x.1.size))

theorem readAll_eq (reads : List Read) (a : State) :
    readAll S W cells reads a =
      (lookups S W reads a).map fun x => (x.1.map (frameOf cells), x.2) := by
  induction reads generalizing a with
  | nil => rfl
  | cons r reads ih =>
    simp only [readAll, lookups, getDbParam, bind, Prog.bind, pure, Prog.ret]
    cases readDbParam S W r.param a with
    | none => rfl
    | some result =>
      obtain ⟨result, a₁⟩ := result
      cases result with
      | error e => rfl
      | ok found =>
        simp only [ih]
        cases lookups S W reads a₁ with
        | none => rfl
        | some rest =>
          obtain ⟨rest, a₂⟩ := rest
          cases rest with
          | error e => rfl
          | ok rest => rfl

/-- The reads were made in order, and found values without a terminator. -/
theorem lookups_spec {reads : List Read} {found : List (Read × DbRead)}
    (h : lookups S W reads a = some (.ok found, a')) :
    found.map Prod.fst = reads ∧ ∀ x ∈ found, ∀ text, x.2 = .value text → nul ∉ text := by
  induction reads generalizing a found with
  | nil =>
    cases h
    exact ⟨rfl, nofun⟩
  | cons r reads ih =>
    simp only [lookups, bind, Prog.bind, pure, Prog.ret] at h
    cases hread : readDbParam S W r.param a with
    | none => simp [hread] at h
    | some result =>
      obtain ⟨result, a₁⟩ := result
      rw [hread] at h
      cases result with
      | error e => simp at h
      | ok first =>
        cases hrest : lookups S W reads a₁ with
        | none => simp [hrest] at h
        | some rest =>
          obtain ⟨rest, a₂⟩ := rest
          cases rest with
          | error e => simp [hrest] at h
          | ok rest =>
            simp only [hrest, Option.some.injEq, Prod.mk.injEq, Except.ok.injEq] at h
            obtain ⟨rfl, rfl⟩ := h
            obtain ⟨hreads, hclean⟩ := ih hrest
            refine ⟨by rw [map_cons, hreads], fun x hx => ?_⟩
            rcases List.mem_cons.mp hx with rfl | hx
            · exact readDbParam_clean hread
            · exact hclean x hx

theorem lookup_of_mem {β : Type} {entries : List (Str × β)} {name : Str} {b : β}
    (hnodup : (entries.map Prod.fst).Nodup) (h : (name, b) ∈ entries) :
    entries.lookup name = some b := by
  induction entries with
  | nil => cases h
  | cons entry entries ih =>
    rw [map_cons, nodup_cons] at hnodup
    rcases List.mem_cons.mp h with rfl | h
    · exact lookup_cons_self
    · have hne : name ≠ entry.1 := fun heq =>
        hnodup.1 (heq ▸ List.mem_map.mpr ⟨(name, b), h, rfl⟩)
      rw [lookup_cons, beq_false_of_ne hne]
      exact ih hnodup.2 h

/-- What the reads of a command found, each one for a name of its own. -/
structure Found (found : List (Read × DbRead)) (names : List Str) : Prop where
  perm : names.Perm (found.map (·.1.name))
  nodup : names.Nodup
  room : ∀ x ∈ found, 0 < x.1.size
  clean : ∀ x ∈ found, ∀ text, x.2 = .value text → nul ∉ text

variable {found : List (Read × DbRead)} {names : List Str}

theorem Found.lookup (h : Found found names) {β : Type} (f : Read × DbRead → β)
    {x : Read × DbRead} (hx : x ∈ found) :
    (found.map fun y => (y.1.name, f y)).lookup x.1.name = some (f x) := by
  refine lookup_of_mem ?_ (List.mem_map.mpr ⟨x, hx, rfl⟩)
  rw [map_map]
  exact h.perm.nodup_iff.mp h.nodup

/-- A result that fits is read back from its buffer; a missing one is empty. -/
theorem fill_of_fits {r : Read} {d : DbRead} (hfits : r.Fits d) (hroom : 0 < r.size)
    (hclean : ∀ text, d = .value text → nul ∉ text) :
    ∃ buf, d.fill (declare cells r.name r.size) = some buf ∧
      readString buf = some (d.stored.getD []) := by
  have hcopy : ∀ text : Str, nul ∉ text → text.length < r.size →
      ∃ buf, copyString (declare cells r.name r.size) text = some buf ∧
        readString buf = some text := by
    intro text htext hlt
    have hlen : text.length < (declare cells r.name r.size).length := by rwa [declare_length]
    have hsome := copyString_eq_some_iff.mpr ⟨hlen, rfl⟩
    exact ⟨_, hsome, readString_copyString htext hsome⟩
  cases d with
  | unresolved e => exact hfits.elim
  | blank e => exact hcopy [] not_mem_nil hroom
  | value text => exact hcopy text (hclean text rfl) hfits

/-- A buffer that is read back from junk belongs to a result that fits. -/
theorem fits_of_fill {r : Read} {d : DbRead} {buf : Buffer} {text : Text}
    (hfill : d.fill (declare junk r.name r.size) = some buf) (hread : readString buf = some text) :
    r.Fits d := by
  cases d with
  | unresolved e =>
    cases hfill
    rw [readString_open (nul_not_mem_junk _ _)] at hread
    cases hread
  | blank e => trivial
  | value stored =>
    have hlt := (copyString_eq_some_iff.mp hfill).1
    rwa [declare_length] at hlt

/-- The arguments of results that all fit. -/
theorem addAll_of_fits (h : Found found names) (hfits : ∀ x ∈ found, x.1.Fits x.2) :
    addAll (frameOf cells found) names =
      some ((expectedOf found names).map fun e => (e.1, e.2.getD [])) := by
  have hbuf : ∀ x ∈ found, ∃ buf, x.2.fill (declare cells x.1.name x.1.size) = some buf ∧
      readString buf = some (x.2.stored.getD []) := fun x hx =>
    fill_of_fits (hfits x hx) (h.room x hx) (h.clean x hx)
  have hall : ((frameOf cells found).map Prod.snd).all Option.isSome = true := by
    simp only [frameOf, map_map, all_map, all_eq_true]
    intro x hx
    obtain ⟨buf, hfill, _⟩ := hbuf x hx
    simp [hfill]
  rw [addAll, if_pos hall, allInside_eq_some_iff, expectedOf, map_map, map_map]
  refine map_congr_left fun name hname => ?_
  obtain ⟨x, hx, rfl⟩ := List.mem_map.mp (h.perm.mem_iff.mp hname)
  obtain ⟨buf, hfill, hread⟩ := hbuf x hx
  rw [frameOf, h.lookup _ hx, Option.join_some, hfill, Option.bind_some, hread]
  simp only [Function.comp_apply, storedAs, h.lookup _ hx, Option.join_some, Option.map_some]

/-- No argument could be added from junk unless all results fit. -/
theorem fits_of_addAll (h : Found found names) {args : Args}
    (hadd : addAll (frameOf junk found) names = some args) : ∀ x ∈ found, x.1.Fits x.2 := by
  intro x hx
  rw [addAll] at hadd
  split at hadd
  · next hall =>
    have hmem := mem_map_of_mem (f := fun name =>
      (((frameOf junk found).lookup name).join.bind readString).map fun value => (name, value))
      (h.perm.mem_iff.mpr (List.mem_map.mpr ⟨x, hx, rfl⟩))
    rw [allInside_eq_some_iff.mp hadd] at hmem
    obtain ⟨arg, _, harg⟩ := List.mem_map.mp hmem
    obtain ⟨text, hbind, _⟩ := Option.map_eq_some_iff.mp harg.symm
    rw [frameOf, h.lookup _ hx, Option.join_some] at hbind
    obtain ⟨buf, hfill, hread⟩ := Option.bind_eq_some_iff.mp hbind
    exact fits_of_fill hfill hread
  · cases hadd

/-! ## Hops -/

theorem hopPath_length (n : Int) (field : Str) :
    (hopPath n field).length = 11 + (intDigits n).length + field.length := by
  have hprefix : routeHops.length = 10 := by decide
  simp only [hopPath, length_append, length_cons, hprefix]
  omega

/-- A name that is not cut off leaves the path whole as well. -/
theorem clip_hopPath (h : (hopPath n field).length < hopLen) :
    clip hopLen (hopPath n field) = hopPath n field ∧
      clip maxDmPath (tracePath ++ hopPath n field) = tracePath ++ hopPath n field := by
  have hprefix : tracePath.length = 33 := by decide
  simp only [hopLen] at h
  constructor
  · exact take_of_length_le (by simp only [hopLen]; omega)
  · exact take_of_length_le (by simp only [maxDmPath, length_append]; omega)

theorem field_length (h : field ∈ hopFields) : field.length ≤ 11 := by
  revert field
  decide

/-- The argument of a hop that fits. -/
theorem hopArg_of_fits (h : HopFits java n) (hfield : field ∈ hopFields) :
    hopArg java cells n field = some (hopPath n field,
      ((java.reply (tracePath ++ hopPath n field)).map Subtype.val).getD []) := by
  obtain ⟨text, hreply, hlt⟩ := h.2 field hfield
  have hlength : (hopPath n field).length < hopLen := by
    have := field_length hfield
    have := h.1
    rw [hopPath_length]
    simp only [hopLen]
    omega
  obtain ⟨hname, hpath⟩ := clip_hopPath hlength
  simp only [hopArg, hname, hpath, hreply, callbackGet, Option.map_some, Option.getD_some]
  rw [readString_fillString text.property, declare_length, if_pos hlt, Option.map_some]

/-- An argument with the name of its hop that was read from junk. -/
theorem hopArg_inv {value : Str} (h : hopArg java junk n field = some (hopPath n field, value)) :
    (hopPath n field).length < hopLen ∧
      ∃ text, java.reply (tracePath ++ hopPath n field) = some text ∧ text.val.length < hopLen := by
  obtain ⟨_, hread, hpair⟩ := Option.map_eq_some_iff.mp h
  have hname : clip hopLen (hopPath n field) = hopPath n field := congrArg Prod.fst hpair
  have hlength : (hopPath n field).length < hopLen := by
    have hle := congrArg List.length hname
    rw [clip, length_take] at hle
    simp only [hopLen] at hle ⊢
    omega
  refine ⟨hlength, ?_⟩
  rw [hname, (clip_hopPath hlength).2] at hread
  cases hreply : java.reply (tracePath ++ hopPath n field) with
  | none =>
    rw [hreply, callbackGet, readString_open (nul_not_mem_junk _ _)] at hread
    cases hread
  | some text =>
    rw [hreply, callbackGet, readString_fillString text.property, declare_length] at hread
    split at hread
    · next hlt => exact ⟨text, rfl, hlt⟩
    · cases hread

theorem hopArgs_of_fits {iv : List Int} (h : ∀ n ∈ iv, HopFits java n) (i : Nat) :
    hopArgs java stack i iv = ((expectedHops java iv).map fun e => (e.1, e.2.getD [])).map some := by
  induction iv generalizing i with
  | nil => rfl
  | cons n iv ih =>
    rw [hopArgs, ih (fun m hm => h m (mem_cons_of_mem _ hm)), expectedHops, expectedHops,
      flatMap_cons, map_append, map_append, map_map, map_map]
    congr 1
    exact map_congr_left fun field hfield =>
      hopArg_of_fits (h n mem_cons_self) hfield

/-- Hops whose arguments could be added from junk, each under its own name, fit. -/
theorem fits_of_hopArgs (hstack : stack.hop = fun _ => junk) {iv : List Int}
    (i : Nat) (h : hopArgs java stack i iv =
      ((expectedHops java iv).map fun e => (e.1, e.2.getD [])).map some) :
    ∀ n ∈ iv, HopFits java n := by
  induction iv generalizing i with
  | nil => exact nofun
  | cons n iv ih =>
    rw [hopArgs, expectedHops, flatMap_cons, map_append, map_append, map_map,
      map_map] at h
    obtain ⟨hfirst, hrest⟩ := append_inj h (by simp)
    have harg : ∀ field ∈ hopFields, _ := fun field hfield => hopArg_inv (by
      have := List.map_inj_left.mp hfirst field hfield
      rwa [hstack] at this)
    intro m hm
    rcases List.mem_cons.mp hm with rfl | hm
    · refine ⟨?_, fun field hfield => (harg field hfield).2⟩
      have hlength := (harg "HostAddress".toList (by decide)).1
      rw [hopPath_length] at hlength
      have haddress : "HostAddress".toList.length = 11 := by decide
      simp only [hopLen, haddress] at hlength
      omega
    · exact ih (i + 1) hrest m hm

/-! ## Commands -/

/-- Every argument under its name, an empty one for a missing value. -/
theorem answers_all (expected : List (Str × Option Str)) :
    Answers expected (expected.map fun e => (e.1, e.2.getD [])) := by
  refine ⟨List.Sublist.refl _, ?_⟩
  induction expected with
  | nil => exact List.Sublist.slnil
  | cons e expected ih =>
    obtain ⟨name, value⟩ := e
    cases value with
    | none => exact ih.cons _
    | some value => exact ih.cons_cons _

/-- As many arguments as were expected are all of them. -/
theorem Answers.eq_of_length {expected : List (Str × Option Str)} {args : Args}
    (h : Answers expected args) (hlength : args.length = expected.length) :
    args = expected.map fun e => (e.1, e.2.getD []) :=
  h.sound.eq_of_length (by rw [hlength, length_map])

theorem lookups_found (h : lookups S W c.reads a = some (.ok found, a')) :
    Found found c.outputs := by
  obtain ⟨hreads, hclean⟩ := lookups_spec h
  have hnames : c.reads.map (·.name) = found.map (·.1.name) := by
    rw [← hreads, map_map]
    rfl
  refine ⟨hnames ▸ c.perm, c.nodup, fun x hx => c.room x.1 ?_, hclean⟩
  rw [← hreads]
  exact mem_map_of_mem hx

theorem appendAll_param (c : EventCommand) (inputArgs : Args) :
    appendAll eventParamLen (c.event ++ separator)
        ((c.inputs.map (argGet inputArgs)).intersperse separator) =
      if (c.param inputArgs).length < eventParamLen then some (c.param inputArgs) else none :=
  appendAll_eq c.short

/-- The run of a command whose arguments are present and fit into the text. -/
theorem start_eq (stack : Stack) (a : State) (hpresent : [] ∉ c.inputs.map (argGet inputArgs))
    (hshort : (c.param inputArgs).length < eventParamLen) :
    c.start S W java stack inputArgs a =
      (lookups S W c.reads (java.event (c.param inputArgs) a)).map fun x =>
        (x.1.map fun found => addAll (frameOf stack.frame found) c.outputs, x.2) := by
  have happend := appendAll_param c inputArgs
  rw [if_pos hshort] at happend
  rw [EventCommand.start, if_neg hpresent, happend]
  show Prog.bind (readAll S W stack.frame c.reads) _ (java.event (c.param inputArgs) a) = _
  rw [Prog.bind, readAll_eq]
  cases lookups S W c.reads (java.event (c.param inputArgs) a) with
  | none => rfl
  | some result =>
    obtain ⟨result, a'⟩ := result
    cases result <;> rfl

theorem results_eq (a : State) :
    c.results S W java inputArgs a =
      (lookups S W c.reads (java.event (c.param inputArgs) a)).map fun x =>
        (x.1.map fun found => expectedOf found c.outputs, x.2) := by
  show Prog.bind (lookups S W c.reads) _ (java.event (c.param inputArgs) a) = _
  rw [Prog.bind]
  cases lookups S W c.reads (java.event (c.param inputArgs) a) with
  | none => rfl
  | some result =>
    obtain ⟨result, a'⟩ := result
    cases result <;> rfl

def junkStack : Stack := ⟨junk, fun _ => junk⟩

theorem eventCommand_right_iff (c : EventCommand) (inputArgs : Args) (a : State) :
    Right (fun stack => c.start S W java stack inputArgs) (c.results S W java inputArgs) a ↔
      c.Fits S W java inputArgs a := by
  by_cases hmissing : [] ∈ c.inputs.map (argGet inputArgs)
  · refine ⟨fun _ => .inl hmissing, fun _ stack out a' hstart => ?_⟩
    have herror : c.start S W java stack inputArgs a = some (.error .invalidValue, a) := by
      rw [EventCommand.start, if_pos hmissing]
      rfl
    cases herror.symm.trans hstart
  by_cases hshort : (c.param inputArgs).length < eventParamLen
  · constructor
    · intro hright
      refine .inr ⟨hshort, fun found a' hfound => ?_⟩
      have hstart : c.start S W java junkStack inputArgs a = _ :=
        start_eq junkStack a hmissing hshort
      rw [hfound] at hstart
      obtain ⟨args, _, hargs, _⟩ := hright junkStack _ a' hstart
      exact fits_of_addAll (lookups_found hfound) hargs
    · rintro (habsent | ⟨_, hfits⟩) stack out a' hstart
      · exact absurd habsent hmissing
      obtain ⟨⟨result, a₁⟩, hfound, heq⟩ :=
        Option.map_eq_some_iff.mp ((start_eq stack a hmissing hshort).symm.trans hstart)
      cases result with
      | error e => cases heq
      | ok found =>
        cases heq
        refine ⟨_, _, addAll_of_fits (lookups_found hfound) (hfits found a₁ hfound), ?_,
          answers_all (expectedOf found c.outputs)⟩
        rw [results_eq, hfound]
        rfl
  · constructor
    · intro hright
      have happend := appendAll_param c inputArgs
      rw [if_neg hshort] at happend
      have hstart : c.start S W java junkStack inputArgs a = some (.ok none, a) := by
        rw [EventCommand.start, if_neg hmissing, happend]
        rfl
      obtain ⟨args, _, hargs, _⟩ := hright junkStack none a hstart
      cases hargs
    · rintro (habsent | ⟨hlt, _⟩)
      · exact absurd habsent hmissing
      · exact absurd hlt hshort

/-- The arguments of a trace that are there. -/
def TracePresent (inputArgs : Args) : Prop :=
  ¬ (argGet inputArgs "Host".toList = [] ∨ argGet inputArgs "Timeout".toList = [] ∨
    argGet inputArgs "MaxHopCount".toList = [])

/-- The steps of a trace up to the results in the database. -/
structure TraceRead (S : DmTree) (W : World) (java : JavaSide) (inputArgs : Args) (a sent a' : State)
    (found : List (Read × DbRead)) : Prop where
  sends : sendTraceRoute S W java (argGet inputArgs "Host".toList)
    (argGet inputArgs "Timeout".toList) (argGet inputArgs "MaxHopCount".toList) a =
      some (.ok (), sent)
  finds : lookups S W traceReads sent = some (.ok found, a')

theorem TraceRead.foundAll (h : TraceRead S W java inputArgs a sent a' found) :
    Found found (traceReads.map (·.name)) := by
  obtain ⟨hreads, hclean⟩ := lookups_spec h.finds
  have hnames : traceReads.map (·.name) = found.map (·.1.name) := by
    rw [← hreads, map_map]
    rfl
  refine ⟨by rw [hnames], by decide, fun x hx => ?_, hclean⟩
  have hx : x.1 ∈ traceReads := by
    rw [← hreads]
    exact mem_map_of_mem hx
  revert hx
  exact (show ∀ r ∈ traceReads, 0 < r.size by decide) x.1

/-- The rest of a trace. -/
theorem TraceRead.start_eq (h : TraceRead S W java inputArgs a sent a' found)
    (hpresent : TracePresent inputArgs) (stack : Stack) :
    startTraceRoute S W java stack inputArgs a =
      match addAll (frameOf stack.frame found) (traceReads.map (·.name)) with
      | none => some (.ok none, a')
      | some outputArgs =>
        (getInstances S W (tracePath ++ "RouteHops".toList) a').map fun x =>
          (x.1.map fun iv => (allInside (hopArgs java stack 0 iv)).map (outputArgs ++ ·), x.2) := by
  rw [startTraceRoute, if_neg hpresent]
  show Prog.bind _ _ a = _
  rw [Prog.bind, h.sends]
  show Prog.bind (readAll S W stack.frame traceReads) _ sent = _
  rw [Prog.bind, readAll_eq, h.finds]
  show (match addAll (frameOf stack.frame found) (traceReads.map (·.name)) with
    | none => pure none
    | some outputArgs => Prog.bind _ _ : Op (Option Args)) a' = _
  cases addAll (frameOf stack.frame found) (traceReads.map (·.name)) with
  | none => rfl
  | some outputArgs =>
    simp only [Prog.bind]
    cases getInstances S W (tracePath ++ "RouteHops".toList) a' with
    | none => rfl
    | some result =>
      obtain ⟨result, a''⟩ := result
      cases result <;> rfl

theorem TraceRead.results_eq (h : TraceRead S W java inputArgs a sent a' found) :
    traceResults S W java inputArgs a =
      (getInstances S W (tracePath ++ "RouteHops".toList) a').map fun x =>
        (x.1.map fun iv => expectedOf found (traceReads.map (·.name)) ++ expectedHops java iv, x.2) := by
  show Prog.bind _ _ a = _
  rw [Prog.bind, h.sends]
  show Prog.bind (lookups S W traceReads) _ sent = _
  rw [Prog.bind, h.finds]
  show Prog.bind _ _ a' = _
  simp only [Prog.bind]
  cases getInstances S W (tracePath ++ "RouteHops".toList) a' with
  | none => rfl
  | some result =>
    obtain ⟨result, a''⟩ := result
    cases result <;> rfl

/-- A trace that returns no error has got as far as the database. -/
theorem exists_traceRead {a'' : State} {out : Option Args} (hpresent : TracePresent inputArgs)
    (h : startTraceRoute S W java stack inputArgs a = some (.ok out, a'')) :
    ∃ sent a' found, TraceRead S W java inputArgs a sent a' found := by
  rw [startTraceRoute, if_neg hpresent] at h
  change Prog.bind _ _ a = _ at h
  rw [Prog.bind] at h
  split at h
  · cases h
  · cases h
  · next sent hsent =>
    change Prog.bind (readAll S W stack.frame traceReads) _ sent = _ at h
    rw [Prog.bind, readAll_eq] at h
    cases hfound : lookups S W traceReads sent with
    | none => simp [hfound] at h
    | some result =>
      obtain ⟨result, a'⟩ := result
      cases result with
      | error e => simp [hfound, Except.map] at h
      | ok found => exact ⟨sent, a', found, hsent, hfound⟩

theorem hopArgs_length (stack : Stack) (i : Nat) (iv : List Int) :
    (hopArgs java stack i iv).length = (expectedHops java iv).length := by
  induction iv generalizing i with
  | nil => rfl
  | cons n iv ih =>
    rw [hopArgs, expectedHops, flatMap_cons, length_append, length_append, ih,
      length_map, length_map]
    rfl

theorem traceRoute_right_iff (inputArgs : Args) (a : State) :
    Right (fun stack => startTraceRoute S W java stack inputArgs)
      (traceResults S W java inputArgs) a ↔ TraceFits S W java inputArgs a := by
  by_cases hpresent : TracePresent inputArgs
  · constructor
    · intro hright
      refine .inr fun sent found a' hsent hfound => ?_
      have hread : TraceRead S W java inputArgs a sent a' found := ⟨hsent, hfound⟩
      have hstart := hread.start_eq hpresent junkStack
      cases hadd : addAll (frameOf junkStack.frame found) (traceReads.map (·.name)) with
      | none =>
        rw [hadd] at hstart
        obtain ⟨args, _, hargs, _⟩ := hright junkStack none a' hstart
        cases hargs
      | some outputArgs =>
        have hfits := fits_of_addAll hread.foundAll hadd
        refine ⟨hfits, fun iv a'' hiv => ?_⟩
        rw [hadd, hiv] at hstart
        obtain ⟨args, expected, hargs, hresults, hanswers⟩ := hright junkStack _ a'' hstart
        rw [hread.results_eq, hiv] at hresults
        cases hresults
        obtain ⟨hops, hhops, rfl⟩ := Option.map_eq_some_iff.mp hargs
        have hall : addAll (frameOf junkStack.frame found) _ = _ :=
          addAll_of_fits hread.foundAll hfits
        rw [hadd, Option.some.injEq] at hall
        rw [allInside_eq_some_iff] at hhops
        have hlength : hops.length = (expectedHops java iv).length := by
          rw [← hopArgs_length junkStack 0 iv, hhops, length_map]
        have heq := hanswers.eq_of_length (by
          rw [length_append, length_append, hlength, hall, length_map])
        rw [map_append, hall] at heq
        rw [append_cancel_left heq] at hhops
        exact fits_of_hopArgs rfl 0 hhops
    · rintro (hmissing | hfits) stack out a'' hstart
      · exact absurd hmissing hpresent
      obtain ⟨sent, a', found, hread⟩ := exists_traceRead hpresent hstart
      obtain ⟨hfound, hhops⟩ := hfits sent found a' hread.sends hread.finds
      have hrun := (hread.start_eq hpresent stack).symm.trans hstart
      rw [addAll_of_fits hread.foundAll hfound] at hrun
      obtain ⟨⟨result, a₁⟩, hiv, heq⟩ := Option.map_eq_some_iff.mp hrun
      cases result with
      | error e => cases heq
      | ok iv =>
        cases heq
        have hargs : hopArgs java stack 0 iv = _ := hopArgs_of_fits (hhops iv a₁ hiv) 0
        have hinside := allInside_eq_some_iff.mpr hargs
        refine ⟨_, expectedOf found (traceReads.map (·.name)) ++ expectedHops java iv, ?_, ?_,
          answers_all _⟩
        · show Option.map _ (allInside (hopArgs java stack 0 iv)) = _
          rw [hinside, map_append]
          rfl
        · rw [hread.results_eq, hiv]
          rfl
  · refine ⟨fun _ => .inl (not_not.mp hpresent), fun _ stack out a' hstart => ?_⟩
    have herror : startTraceRoute S W java stack inputArgs a = some (.error .invalidValue, a) := by
      rw [startTraceRoute, if_pos (not_not.mp hpresent)]
      rfl
    cases herror.symm.trans hstart

/-- A command answers right exactly when its text fits, its results are values of the database
that are shorter than their buffers, and each hop has all its answers, shorter than theirs. -/
theorem commands_right_iff (command : Command) (inputArgs : Args) (a : State) :
    Right (fun stack => command.start S W java stack inputArgs)
      (command.results S W java inputArgs) a ↔ command.Fits S W java inputArgs a := by
  cases command with
  | uploadFile => exact eventCommand_right_iff uploadFile inputArgs a
  | ipPing => exact eventCommand_right_iff ipPing inputArgs a
  | traceRoute => exact traceRoute_right_iff inputArgs a
  | downloadDiagnostics => exact eventCommand_right_iff downloadDiagnostics inputArgs a

end Proofs

/-! ## A hop without an answer -/

def traceRegistration (type : NodeType) (name : String) : Registration :=
  { path := tracePath ++ name.toList, type := type, flags := {} }

def traceTree : DmTree :=
  registerAll initialTree [traceRegistration .dbParamReadWrite "Status",
    traceRegistration .dbParamReadWrite "ResponseTime",
    traceRegistration .objectMultiInstance "RouteHops.{i}"]

/-- The table of the hops is the node after its four ancestors and the two parameters. -/
def twoHops : State :=
  { initialState with instVector := fun top => if top = 7 then [[(7, 1)], [(7, 2)]] else [] }

def traceArgs : Args :=
  [("Host".toList, "example".toList), ("Timeout".toList, "5000".toList),
    ("MaxHopCount".toList, "30".toList)]

def firstHost : CString := ⟨"10.0.0.1".toList, by decide⟩

/-- The Java side has no name for the second host. -/
def twoReplies : JavaSide where
  event := fun _ a => a
  reply := fun path =>
    if path = tracePath ++ hopPath 2 "Host".toList then none else some firstHost

/-- The variables of the loop lie where they lay at its first turn. -/
def keptStack : Stack where
  frame := junk
  hop := fun _ _ i => (fillString (declare junk [] hopLen) firstHost.val).getD i nul

def leftover : Str × Str := (hopPath 2 "Host".toList, firstHost.val)

/-- The second hop gets the host of the first one. -/
theorem host_of_other_hop : ∃ args a', Command.traceRoute.start traceTree quietWorld twoReplies
      keptStack traceArgs twoHops = some (.ok (some args), a') ∧ leftover ∈ args ∧
    twoReplies.reply (tracePath ++ leftover.1) = none ∧
    ¬ Right (fun stack => Command.traceRoute.start traceTree quietWorld twoReplies stack traceArgs)
      (Command.traceRoute.results traceTree quietWorld twoReplies traceArgs) twoHops := by
  have hstart : ((Command.traceRoute.start traceTree quietWorld twoReplies keptStack traceArgs
      twoHops).bind fun x => x.1.toOption.join).any (fun args => decide (leftover ∈ args)) = true := by
    decide +kernel
  have hresults : ((Command.traceRoute.results traceTree quietWorld twoReplies traceArgs
      twoHops).bind fun x => x.1.toOption).any
        (fun expected => decide (leftover ∉ expected.map fun e => (e.1, e.2.getD []))) = true := by
    decide +kernel
  obtain ⟨args, hargs, hmem⟩ := (Option.any_eq_true _ _).mp hstart
  obtain ⟨⟨r, a'⟩, hrun, hjoin⟩ := Option.bind_eq_some_iff.mp hargs
  have hr : r = .ok (some args) := by
    cases r with
    | error e => cases hjoin
    | ok r =>
      cases r with
      | none => cases hjoin
      | some args' =>
        cases hjoin
        rfl
  subst hr
  refine ⟨args, a', hrun, of_decide_eq_true hmem, by decide, fun hright => ?_⟩
  obtain ⟨_, expected, hargs', hexpected, hanswers⟩ := hright keptStack (some args) a' hrun
  cases hargs'
  rw [hexpected] at hresults
  exact of_decide_eq_true hresults (hanswers.sound.subset (of_decide_eq_true hmem))

end DiagnosticCommands
