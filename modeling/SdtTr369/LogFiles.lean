import SdtTr369.JavaText

/-!
# Log files by time

`splitLogFile` of `LogRepository.java` names a file after the time at which it is written.
`handleLogFile` of `Event.java` uploads, and `deleteLogFiles` of `LogRepository.java` deletes, the
files of an interval of times. Each finds the time in the name in its own way.
-/

namespace LogFiles

open UspTypes DecimalText JavaText List Option

structure File where
  name : Str
  isFile : Bool
  deriving DecidableEq, Repr

/-- What `listFiles` tells of the log directory. -/
inductive Folder where
  | missing
  | unreadable
  | holds (files : List File)

def stampPrefix : Str := "logcat_tr369_".toList
def stampSuffix : Str := ".txt".toList

/-- `RAW_LOG_FILE`. -/
def rawLogFile : Str := "logcat_tr369.log".toList

/-- The name that `splitLogFile` gives to a file. -/
def splitName (time : Nat) : Str := stampPrefix ++ natDigits time ++ stampSuffix

def splitFrom : Str → Str → List Str
  | piece, '%' :: '%' :: '%' :: rest => piece :: splitFrom [] rest
  | piece, c :: rest => splitFrom (piece ++ [c]) rest
  | piece, [] => [piece]

/-- `split("%%%")`: empty pieces at the end are left out, unless nothing was split. -/
def split (text : Str) : List Str :=
  let pieces := splitFrom [] text
  if pieces.length = 1 then pieces else (pieces.reverse.dropWhile (· = [])).reverse

/-- The comparison of a time with the interval; no result is a `NumberFormatException`. -/
def isBetween (fileTime startTime endTime : Str) : Option Bool := do
  let time ← parseLong fileTime
  let start ← parseLong startTime
  if start < time then
    let stop ← parseLong endTime
    pure (decide (time ≤ stop))
  else pure false

/-- The first match of `\\d+`. -/
def firstNumber (name : Str) : Str := (name.dropWhile (!isDecimal ·)).takeWhile isDecimal

/-- `isFileNeedToBeUploaded`. -/
def isFileNeedToBeUploaded (fileName startTime endTime : Str) : Option Bool :=
  if firstNumber fileName = [] then some false
  else isBetween (firstNumber fileName) startTime endTime

/-- A character that `.` does not match. -/
def isLineEnd (c : Char) : Bool := c ∈ ['\n', '\r', '\u0085', '\u2028', '\u2029']

/-- The shortest match of `(.*?)\\.txt` at the beginning of a text: the group. -/
def shortest : Str → Option Str
  | [] => none
  | c :: rest =>
    if stampSuffix.isPrefixOf (c :: rest) then some []
    else if isLineEnd c then none
    else (shortest rest).map (c :: ·)

/-- The group of the first match of `logcat_tr369_(.*?)\\.txt`. -/
def stamp : Str → Option Str
  | [] => none
  | c :: rest =>
    match if stampPrefix.isPrefixOf (c :: rest) then
      shortest ((c :: rest).drop stampPrefix.length) else none with
    | some group => some group
    | none => stamp rest

/-- `isFileNeedToBeDeleted`. -/
def isFileNeedToBeDeleted (fileName startTime endTime : Str) : Bool :=
  match stamp fileName with
  | none => false
  | some fileTime => (isBetween fileTime startTime endTime).getD false

/-- A file that is neither passed over for its kind nor for its name. -/
def Candidate (file : File) : Prop :=
  file.isFile = true ∧ stampPrefix <:+: file.name ∧ stampSuffix <:+: file.name

instance (file : File) : Decidable (Candidate file) :=
  inferInstanceAs (Decidable (_ ∧ _ ∧ _))

/-- The loop of `handleLogFile` over the files. -/
def selectFiles (startTime endTime : Str) : List File → Option (List File)
  | [] => some []
  | file :: files =>
    if Candidate file then do
      let needed ← isFileNeedToBeUploaded file.name startTime endTime
      let rest ← selectFiles startTime endTime files
      pure (if needed then file :: rest else rest)
    else selectFiles startTime endTime files

/-- `handleLogFile`: a message, or the URL and the files that are uploaded to it. No result
means that it threw. -/
def handleLogFile (uploadUrl : Str) (folder : Folder) :
    Option (Except String (Str × List File)) :=
  if uploadUrl = [] then some (.error "The URL parameter is empty.")
  else match folder with
  | .missing => some (.error "Unable to find the folder for storing logs.")
  | .unreadable => some (.error "This abstract pathname does not denote the directory.")
  | .holds files =>
    let keywords := split uploadUrl
    let filterUrl := keywords.headD []
    let filterStartTime := if 2 < keywords.length then keywords.getD 1 [] else []
    let filterEndTime := if 2 < keywords.length then keywords.getD 2 [] else []
    if filterUrl = [] then some (.error "The URL parameter is empty.")
    else
      let logFiles :=
        if filterStartTime = [] ∨ filterEndTime = [] then
          some (files.filter fun file => file.isFile && rawLogFile.isPrefixOf file.name)
        else selectFiles filterStartTime filterEndTime files
      logFiles.map fun logFiles =>
        if logFiles = [] then .error "No such file or directory." else .ok (filterUrl, logFiles)

/-- `deleteLogFiles`: its result, and the files that are deleted. -/
def deleteLogFiles (filterTime : Str) (folder : Folder) : Bool × List File :=
  match folder with
  | .missing => (false, [])
  | .unreadable | .holds _ =>
    let times := if filterTime = [] then [] else split filterTime
    let startTime := if 1 < times.length then times.getD 0 [] else []
    let endTime := if 1 < times.length then times.getD 1 [] else []
    if startTime = [] ∨ endTime = [] then (false, [])
    else match folder with
    | .holds files => (true, files.filter fun file =>
        Candidate file ∧ isFileNeedToBeDeleted file.name startTime endTime = true)
    | _ => (true, [])

/-- The files that are uploaded. -/
def uploaded (result : Option (Except String (Str × List File))) : Option (List File) :=
  result.map fun outcome => match outcome with
    | .error _ => []
    | .ok selected => selected.2

/-- The bounds are numbers with the time between them. -/
def InInterval (time : Int) (startTime endTime : Str) : Prop :=
  ∃ start stop, parseLong startTime = some start ∧ parseLong endTime = some stop ∧
    start < time ∧ time ≤ stop

/-- A split log file whose time stamp is in the interval. -/
def Wanted (startTime endTime : Str) (file : File) : Prop :=
  file.isFile = true ∧ ∃ time < longLimit, file.name = splitName time ∧
    InInterval time startTime endTime

/-- The files that are uploaded, and those that are deleted, are the split log files of the
interval. -/
structure SelectsInterval (startTime endTime : Str) (files : List File)
    (sent : Option (List File)) (deleted : List File) : Prop where
  sent : ∃ selected, sent = some selected ∧
    ∀ file, file ∈ selected ↔ file ∈ files ∧ Wanted startTime endTime file
  deleted : ∀ file, file ∈ deleted ↔ file ∈ files ∧ Wanted startTime endTime file

/-- The bounds that are needed to judge a time are numbers. -/
def Judged (time : Int) (startTime endTime : Str) : Prop :=
  ∃ start, parseLong startTime = some start ∧ (start < time → (parseLong endTime).isSome = true)

/-- For a split log file, the interval holds 369 exactly if it holds the time stamp. For another
file, it holds neither the first number of the name nor the number between the prefix and the
suffix. -/
structure Harmless (startTime endTime : Str) (file : File) : Prop where
  split : ∀ time < longLimit, file.name = splitName time →
    Judged 369 startTime endTime ∧
      (InInterval 369 startTime endTime ↔ InInterval time startTime endTime)
  other : (∀ time < longLimit, file.name ≠ splitName time) →
    (∃ number, parseLong (firstNumber file.name) = some number ∧
      Judged number startTime endTime ∧ ¬ InInterval number startTime endTime) ∧
    ∀ group time, stamp file.name = some group → parseLong group = some time →
      ¬ InInterval time startTime endTime

section Times

variable {startTime endTime fileTime : Str} {b : Bool} {time : Int}

theorem InInterval.judged (h : InInterval time startTime endTime) :
    Judged time startTime endTime := by
  obtain ⟨start, stop, hstart, hstop, -, -⟩ := h
  refine ⟨start, hstart, fun _ => ?_⟩
  rw [hstop]
  rfl

/-- The comparison, for a time that is a number. -/
theorem isBetween_eq_some (htime : parseLong fileTime = some time) :
    isBetween fileTime startTime endTime = some b ↔
      Judged time startTime endTime ∧ (b = true ↔ InInterval time startTime endTime) := by
  simp only [isBetween, htime, bind_eq_bind, bind_some, Option.pure_def]
  cases hstart : parseLong startTime with
  | none => simp [Judged, hstart]
  | some start =>
    have hjudged : Judged time startTime endTime ↔
        (start < time → (parseLong endTime).isSome = true) := by
      simp [Judged, hstart]
    have hinside : InInterval time startTime endTime ↔
        ∃ stop, parseLong endTime = some stop ∧ start < time ∧ time ≤ stop := by
      simp [InInterval, hstart]
    rw [bind_some, hjudged, hinside]
    by_cases hlt : start < time
    · rw [if_pos hlt]
      cases hstop : parseLong endTime with
      | none =>
        constructor
        · intro hnone
          cases hnone
        · intro h
          cases h.1 hlt
      | some stop => cases b <;> simp [hlt]
    · rw [if_neg hlt]
      cases b <;> simp [hlt]

theorem isBetween_none (htime : parseLong fileTime = none) :
    isBetween fileTime startTime endTime = none := by
  simp only [isBetween, htime, bind_eq_bind, Option.bind_none]

end Times

section Names

variable {name rest : Str} {m n : Nat}

theorem firstNumber_splitName (n : Nat) : firstNumber (splitName n) = "369".toList := rfl

/-- The shortest group ends at the suffix. -/
theorem shortest_append {digits : Str} (hdigits : ∀ c ∈ digits, c.isDigit = true) :
    shortest (digits ++ stampSuffix) = some digits := by
  induction digits with
  | nil => rfl
  | cons c digits ih =>
    have hc := hdigits c mem_cons_self
    have hsuffix : stampSuffix.isPrefixOf (c :: (digits ++ stampSuffix)) = false := by
      have hdot : '.' ≠ c := by
        intro hdot
        rw [← hdot] at hc
        cases hc
      simp [stampSuffix, List.isPrefixOf, hdot]
    have hline : isLineEnd c = false := by
      have hall : ∀ d ∈ ['\n', '\r', '\u0085', '\u2028', '\u2029'], d.isDigit = false :=
        @of_decide_eq_true _ (List.decidableBAll _ _) rfl
      rw [isLineEnd, decide_eq_false_iff_not]
      intro hmem
      rw [hall c hmem] at hc
      cases hc
    rw [cons_append, shortest, hsuffix, hline, if_neg Bool.false_ne_true,
      if_neg Bool.false_ne_true, ih fun d hd => hdigits d (mem_cons_of_mem c hd),
      map_some]

/-- The time stamp of a split log file is found. -/
theorem stamp_splitName (n : Nat) : stamp (splitName n) = some (natDigits n) := by
  have hshort := shortest_append fun c hc => isDigit_of_mem_natDigits (n := n) hc
  have hname : splitName n = 'l' :: ("ogcat_tr369_".toList ++ (natDigits n ++ stampSuffix)) := rfl
  have hprefix : stampPrefix.isPrefixOf
      ('l' :: ("ogcat_tr369_".toList ++ (natDigits n ++ stampSuffix))) = true := rfl
  have hdrop : ('l' :: ("ogcat_tr369_".toList ++ (natDigits n ++ stampSuffix))).drop
      stampPrefix.length = natDigits n ++ stampSuffix := rfl
  rw [hname, stamp, hprefix, if_pos rfl, hdrop, hshort]

theorem splitName_inj (h : splitName m = splitName n) : m = n := by
  have hstamp := congrArg stamp h
  rw [stamp_splitName, stamp_splitName, Option.some.injEq] at hstamp
  exact natDigits_inj hstamp

theorem firstNumber_ne_nil {c : Char} (hc : c ∈ name) (hdigit : isDecimal c = true) :
    firstNumber name ≠ [] := by
  induction name with
  | nil => cases hc
  | cons d name ih =>
    cases hd : isDecimal d with
    | true => simp [firstNumber, hd]
    | false =>
      have hrest : firstNumber (d :: name) = firstNumber name := by simp [firstNumber, hd]
      rw [hrest]
      apply ih
      cases List.mem_cons.mp hc with
      | inl heq =>
        rw [heq, hd] at hdigit
        cases hdigit
      | inr hmem => exact hmem

theorem Candidate.firstNumber {file : File} (h : Candidate file) : firstNumber file.name ≠ [] := by
  have hmem : '3' ∈ stampPrefix := by decide
  exact firstNumber_ne_nil (h.2.1.mem hmem) (isDecimal_of_isDigit rfl)

theorem candidate_of_split {file : File} (hfile : file.isFile = true)
    (hname : file.name = splitName n) : Candidate file := by
  rw [Candidate, hname]
  refine ⟨hfile, ⟨[], natDigits n ++ stampSuffix, ?_⟩, ⟨stampPrefix ++ natDigits n, [], ?_⟩⟩
  · rw [nil_append, splitName, append_assoc]
  · rw [append_nil, splitName]

end Names

section Selection

variable {startTime endTime : Str} {file : File} {files selected : List File}

theorem Wanted.candidate (h : Wanted startTime endTime file) : Candidate file := by
  obtain ⟨hfile, n, -, hname, -⟩ := h
  exact candidate_of_split hfile hname

theorem wanted_iff_of_split {n : Nat} (hfile : file.isFile = true) (hn : n < longLimit)
    (hname : file.name = splitName n) :
    Wanted startTime endTime file ↔ InInterval n startTime endTime := by
  constructor
  · intro h
    obtain ⟨-, m, -, hname', hin⟩ := h
    rw [splitName_inj (hname.symm.trans hname')]
    exact hin
  · intro h
    exact ⟨hfile, n, hn, hname, h⟩

/-- The loop ends unless it throws over a candidate, and takes the candidates that are needed. -/
theorem selectFiles_spec (startTime endTime : Str) (files : List File) :
    (selectFiles startTime endTime files ≠ none ↔ ∀ file ∈ files, Candidate file →
        isFileNeedToBeUploaded file.name startTime endTime ≠ none) ∧
      ∀ selected, selectFiles startTime endTime files = some selected → ∀ file,
        file ∈ selected ↔ file ∈ files ∧ Candidate file ∧
          isFileNeedToBeUploaded file.name startTime endTime = some true := by
  induction files with
  | nil => simp [selectFiles]
  | cons first files ih =>
    by_cases hfirst : Candidate first
    · simp only [selectFiles, if_pos hfirst, bind_eq_bind, Option.pure_def]
      cases hneeded : isFileNeedToBeUploaded first.name startTime endTime with
      | none => simp [hfirst, hneeded]
      | some needed =>
        cases hrest : selectFiles startTime endTime files with
        | none =>
          rw [hrest] at ih
          simpa [hfirst, hneeded] using ih.1
        | some rest =>
          rw [hrest] at ih
          have hmem := ih.2 rest rfl
          constructor
          · simpa [hfirst, hneeded] using ih.1
          · rintro selected ⟨⟩ file
            cases needed with
            | true =>
              simp only [if_pos, mem_cons, hmem]
              grind
            | false =>
              simp only [if_neg Bool.false_ne_true, mem_cons, hmem]
              grind
    · simp only [selectFiles, if_neg hfirst]
      constructor
      · simpa [hfirst] using ih.1
      · intro selected hselected file
        rw [ih.2 selected hselected file, mem_cons]
        grind

/-- The right files are uploaded exactly when every candidate is judged right. -/
theorem selected_iff :
    (∃ selected, selectFiles startTime endTime files = some selected ∧
        ∀ file, file ∈ selected ↔ file ∈ files ∧ Wanted startTime endTime file) ↔
      ∀ file ∈ files, Candidate file → ∃ needed,
        isFileNeedToBeUploaded file.name startTime endTime = some needed ∧
          (needed = true ↔ Wanted startTime endTime file) := by
  obtain ⟨hends, htaken⟩ := selectFiles_spec startTime endTime files
  constructor
  · intro h file hfile hcandidate
    obtain ⟨selected, hselected, hmem⟩ := h
    have hsome := hends.mp (by rw [hselected]; exact some_ne_none _) file hfile hcandidate
    obtain ⟨needed, hneeded⟩ := ne_none_iff_exists'.mp hsome
    refine ⟨needed, hneeded, ?_⟩
    have hboth := (htaken selected hselected file).symm.trans (hmem file)
    rw [hneeded, Option.some.injEq] at hboth
    constructor
    · intro hneed
      exact (hboth.mp ⟨hfile, hcandidate, hneed⟩).2
    · intro hwanted
      exact (hboth.mpr ⟨hfile, hwanted⟩).2.2
  · intro h
    have hsome : selectFiles startTime endTime files ≠ none := by
      rw [hends]
      intro file hfile hcandidate
      obtain ⟨needed, hneeded, -⟩ := h file hfile hcandidate
      rw [hneeded]
      exact some_ne_none _
    obtain ⟨selected, hselected⟩ := ne_none_iff_exists'.mp hsome
    refine ⟨selected, hselected, ?_⟩
    intro file
    rw [htaken selected hselected file]
    constructor
    · intro hfile
      obtain ⟨needed, hneeded, hwanted⟩ := h file hfile.1 hfile.2.1
      rw [hfile.2.2, Option.some.injEq] at hneeded
      exact ⟨hfile.1, hwanted.mp hneeded.symm⟩
    · intro hfile
      have hcandidate := hfile.2.candidate
      obtain ⟨needed, hneeded, hwanted⟩ := h file hfile.1 hcandidate
      rw [hwanted.mpr hfile.2] at hneeded
      exact ⟨hfile.1, hcandidate, hneeded⟩

/-- For a split log file, the upload looks at 369. -/
theorem uploaded_split_iff {n : Nat} (hfile : file.isFile = true) (hn : n < longLimit)
    (hname : file.name = splitName n) :
    (∃ needed, isFileNeedToBeUploaded file.name startTime endTime = some needed ∧
        (needed = true ↔ Wanted startTime endTime file)) ↔
      Judged 369 startTime endTime ∧
        (InInterval 369 startTime endTime ↔ InInterval n startTime endTime) := by
  have hnumber : parseLong "369".toList = some 369 := by decide
  rw [wanted_iff_of_split hfile hn hname, isFileNeedToBeUploaded, hname, firstNumber_splitName,
    if_neg (by decide)]
  constructor
  · intro h
    obtain ⟨needed, hneeded, hwanted⟩ := h
    obtain ⟨hjudged, hin⟩ := (isBetween_eq_some hnumber).mp hneeded
    exact ⟨hjudged, hin.symm.trans hwanted⟩
  · intro h
    by_cases hin : InInterval n startTime endTime
    · refine ⟨true, (isBetween_eq_some hnumber).mpr ⟨h.1, ?_⟩, by simp [hin]⟩
      simp [h.2, hin]
    · refine ⟨false, (isBetween_eq_some hnumber).mpr ⟨h.1, ?_⟩, by simp [hin]⟩
      simp [h.2, hin]

/-- Another candidate is left alone by the upload when its first number is outside. -/
theorem uploaded_other_iff (hcandidate : Candidate file)
    (hwanted : ¬ Wanted startTime endTime file) :
    (∃ needed, isFileNeedToBeUploaded file.name startTime endTime = some needed ∧
        (needed = true ↔ Wanted startTime endTime file)) ↔
      ∃ number, parseLong (firstNumber file.name) = some number ∧
        Judged number startTime endTime ∧ ¬ InInterval number startTime endTime := by
  rw [isFileNeedToBeUploaded, if_neg hcandidate.firstNumber]
  constructor
  · intro h
    obtain ⟨needed, hneeded, hnot⟩ := h
    cases hnumber : parseLong (firstNumber file.name) with
    | none =>
      rw [isBetween_none hnumber] at hneeded
      cases hneeded
    | some number =>
      obtain ⟨hjudged, hin⟩ := (isBetween_eq_some hnumber).mp hneeded
      exact ⟨number, rfl, hjudged, fun hinside => hwanted (hnot.mp (hin.mpr hinside))⟩
  · intro h
    obtain ⟨number, hnumber, hjudged, hout⟩ := h
    refine ⟨false, (isBetween_eq_some hnumber).mpr ⟨hjudged, ?_⟩, by simp [hwanted]⟩
    simp [hout]

/-- What the deletion judges by. -/
theorem deleted_iff :
    isFileNeedToBeDeleted file.name startTime endTime = true ↔
      ∃ group time, stamp file.name = some group ∧ parseLong group = some time ∧
        InInterval time startTime endTime := by
  rw [isFileNeedToBeDeleted]
  cases hstamp : stamp file.name with
  | none => simp
  | some group =>
    simp only [Option.some.injEq, exists_and_left, exists_eq_left']
    cases htime : parseLong group with
    | none => simp [isBetween_none htime]
    | some time =>
      have hbetween : isBetween group startTime endTime = some true ↔
          Judged time startTime endTime ∧ (true = true ↔ InInterval time startTime endTime) :=
        isBetween_eq_some htime
      simp only [Option.some.injEq, exists_eq_left']
      cases hresult : isBetween group startTime endTime with
      | none => grind [InInterval.judged]
      | some b => grind [InInterval.judged]

/-- The right files are deleted exactly when every candidate is judged right. -/
theorem deleted_files_iff :
    (∀ file, file ∈ files.filter (fun file =>
        Candidate file ∧ isFileNeedToBeDeleted file.name startTime endTime = true) ↔
      file ∈ files ∧ Wanted startTime endTime file) ↔
      ∀ file ∈ files, Candidate file →
        (isFileNeedToBeDeleted file.name startTime endTime = true ↔
          Wanted startTime endTime file) := by
  simp only [mem_filter, decide_eq_true_eq]
  constructor
  · intro h file hfile hcandidate
    have hboth := h file
    constructor
    · intro hdeleted
      exact (hboth.mp ⟨hfile, hcandidate, hdeleted⟩).2
    · intro hwanted
      exact (hboth.mpr ⟨hfile, hwanted⟩).2.2
  · intro h file
    constructor
    · intro hfile
      exact ⟨hfile.1, (h file hfile.1 hfile.2.1).mp hfile.2.2⟩
    · intro hfile
      have hcandidate := hfile.2.candidate
      exact ⟨hfile.1, hcandidate, (h file hfile.1 hcandidate).mpr hfile.2⟩

/-- A candidate is judged right by both exactly when it is harmless. -/
theorem harmless_iff (hcandidate : Candidate file) :
    (∃ needed, isFileNeedToBeUploaded file.name startTime endTime = some needed ∧
        (needed = true ↔ Wanted startTime endTime file)) ∧
      (isFileNeedToBeDeleted file.name startTime endTime = true ↔
        Wanted startTime endTime file) ↔
      Harmless startTime endTime file := by
  by_cases hsplit : ∃ n < longLimit, file.name = splitName n
  · obtain ⟨n, hn, hname⟩ := hsplit
    have hdeleted : isFileNeedToBeDeleted file.name startTime endTime = true ↔
        Wanted startTime endTime file := by
      rw [deleted_iff, wanted_iff_of_split hcandidate.1 hn hname, hname, stamp_splitName]
      simp [parseLong_natDigits hn]
    rw [uploaded_split_iff hcandidate.1 hn hname]
    constructor
    · intro h
      constructor
      · intro m hm hname'
        rw [splitName_inj (hname'.symm.trans hname)]
        exact h.1
      · intro hother
        exact absurd hname (hother n hn)
    · intro h
      exact ⟨h.split n hn hname, hdeleted⟩
  · have hother : ∀ n < longLimit, file.name ≠ splitName n :=
      fun n hn hname => hsplit ⟨n, hn, hname⟩
    have hwanted : ¬ Wanted startTime endTime file := by
      intro h
      obtain ⟨-, n, hn, hname, -⟩ := h
      exact hother n hn hname
    rw [uploaded_other_iff hcandidate hwanted, deleted_iff, iff_false_intro hwanted, iff_false]
    constructor
    · intro h
      constructor
      · intro n hn hname
        exact absurd hname (hother n hn)
      · intro _
        refine ⟨h.1, ?_⟩
        intro group time hstamp htime hin
        exact h.2 ⟨group, time, hstamp, htime, hin⟩
    · intro h
      obtain ⟨hnumber, hout⟩ := h.other hother
      refine ⟨hnumber, ?_⟩
      intro hin
      obtain ⟨group, time, hstamp, htime, hinside⟩ := hin
      exact hout group time hstamp htime hinside

theorem split_nil : split [] = [[]] := rfl

/-- The files that a request with three parts uploads. -/
theorem uploaded_handleLogFile {uploadUrl url : Str} {more : List Str}
    (hsplit : split uploadUrl = url :: startTime :: endTime :: more) (hurl : url ≠ [])
    (hstart : startTime ≠ []) (hend : endTime ≠ []) :
    uploaded (handleLogFile uploadUrl (.holds files)) = selectFiles startTime endTime files := by
  have hsome : uploadUrl ≠ [] := by
    intro hnil
    rw [hnil, split_nil] at hsplit
    cases hsplit
  have htimes : ¬ (startTime = [] ∨ endTime = []) := not_or.mpr ⟨hstart, hend⟩
  have hlong : 2 < more.length + 1 + 1 + 1 := by omega
  simp only [handleLogFile, if_neg hsome, hsplit, headD_cons, if_neg hurl, length_cons,
    getD_cons_succ, getD_cons_zero, if_pos hlong, if_neg htimes]
  cases selectFiles startTime endTime files with
  | none => rfl
  | some selected =>
    rw [map_some, uploaded, map_some]
    split
    · next hempty =>
      split at hempty
      · next hnil => rw [hnil]
      · cases hempty
    · next hsome =>
      split at hsome
      · cases hsome
      · cases hsome
        rfl

theorem deleted_deleteLogFiles {filterTime : Str} {more : List Str}
    (hsplit : split filterTime = startTime :: endTime :: more) (hstart : startTime ≠ [])
    (hend : endTime ≠ []) :
    (deleteLogFiles filterTime (.holds files)).2 = files.filter fun file =>
      Candidate file ∧ isFileNeedToBeDeleted file.name startTime endTime = true := by
  have hsome : filterTime ≠ [] := by
    intro hnil
    rw [hnil, split_nil] at hsplit
    cases hsplit
  have htimes : ¬ (startTime = [] ∨ endTime = []) := not_or.mpr ⟨hstart, hend⟩
  have hlong : 1 < more.length + 1 + 1 := by omega
  simp only [deleteLogFiles, if_neg hsome, hsplit, length_cons, getD_cons_succ,
    getD_cons_zero, if_pos hlong, if_neg htimes]

end Selection

/-- An upload and a deletion for one interval select the split log files of the interval exactly
when every candidate in the directory is harmless. -/
theorem selects_iff {uploadUrl filterTime url startTime endTime : Str} {more others : List Str}
    (hupload : split uploadUrl = url :: startTime :: endTime :: more)
    (hdelete : split filterTime = startTime :: endTime :: others) (hurl : url ≠ [])
    (hstart : startTime ≠ []) (hend : endTime ≠ []) (files : List File) :
    SelectsInterval startTime endTime files (uploaded (handleLogFile uploadUrl (.holds files)))
        (deleteLogFiles filterTime (.holds files)).2 ↔
      ∀ file ∈ files, Candidate file → Harmless startTime endTime file := by
  rw [uploaded_handleLogFile hupload hurl hstart hend, deleted_deleteLogFiles hdelete hstart hend]
  constructor
  · intro h file hfile hcandidate
    exact (harmless_iff hcandidate).mp
      ⟨selected_iff.mp h.sent file hfile hcandidate,
        deleted_files_iff.mp h.deleted file hfile hcandidate⟩
  · intro h
    constructor
    · rw [selected_iff]
      intro file hfile hcandidate
      exact ((harmless_iff hcandidate).mpr (h file hfile hcandidate)).1
    · rw [deleted_files_iff]
      intro file hfile hcandidate
      exact ((harmless_iff hcandidate).mpr (h file hfile hcandidate)).2

/-- A file that was split off in November 2023. -/
def november : File := ⟨splitName 1700000000000, true⟩

theorem november_wanted {startTime endTime : Str}
    (h : InInterval 1700000000000 startTime endTime) : Wanted startTime endTime november :=
  ⟨rfl, 1700000000000, by decide, rfl, h⟩

/-- An interval from the beginning on holds 369 and the time stamp. -/
theorem selects_iff_all :
    SelectsInterval "0".toList "2000000000000".toList [november]
      (uploaded (handleLogFile "https://acs%%%0%%%2000000000000".toList (.holds [november])))
      (deleteLogFiles "0%%%2000000000000".toList (.holds [november])).2 := by
  have hin : ∀ time : Int, 0 < time → time ≤ 2000000000000 →
      InInterval time "0".toList "2000000000000".toList := by
    intro time hlow hhigh
    exact ⟨0, 2000000000000, by decide, by decide, hlow, hhigh⟩
  have h369 := hin 369 (by decide) (by decide)
  have hnovember := hin 1700000000000 (by decide) (by decide)
  have hupload : split "https://acs%%%0%%%2000000000000".toList =
      ["https://acs".toList, "0".toList, "2000000000000".toList] := by decide
  have hdelete : split "0%%%2000000000000".toList =
      ["0".toList, "2000000000000".toList] := by decide
  apply (selects_iff hupload hdelete (by decide) (by decide) (by decide) [november]).mpr
  intro file hfile _
  rw [List.mem_singleton.mp hfile]
  constructor
  · intro time _ hname
    rw [← splitName_inj (m := 1700000000000) hname]
    exact ⟨h369.judged, iff_of_true h369 hnovember⟩
  · intro hother
    exact absurd rfl (hother 1700000000000 (by decide))

/-- The file of an interval around its time is deleted but not uploaded; and a start that is no
number makes the upload throw. -/
theorem november_not_uploaded :
    ¬ SelectsInterval "1690000000000".toList "1710000000000".toList [november]
        (uploaded (handleLogFile "https://acs%%%1690000000000%%%1710000000000".toList
          (.holds [november])))
        (deleteLogFiles "1690000000000%%%1710000000000".toList (.holds [november])).2 ∧
      (deleteLogFiles "1690000000000%%%1710000000000".toList (.holds [november])).2 = [november] ∧
      handleLogFile "https://acs%%%now%%%1710000000000".toList (.holds [november]) = none := by
  refine ⟨?_, by decide, by decide⟩
  intro h
  obtain ⟨selected, hselected, hmem⟩ := h.sent
  have hnone : uploaded (handleLogFile "https://acs%%%1690000000000%%%1710000000000".toList
      (.holds [november])) = some [] := by decide
  rw [hnone, Option.some.injEq] at hselected
  have hin : InInterval 1700000000000 "1690000000000".toList "1710000000000".toList :=
    ⟨1690000000000, 1710000000000, by decide, by decide, by decide, by decide⟩
  have hwanted := (hmem november).mpr ⟨mem_singleton_self _, november_wanted hin⟩
  rw [← hselected] at hwanted
  cases hwanted

end LogFiles
