import SccSharp.Command.Run
import SccSharp.Proofs.Encoding
import SccSharp.Proofs.LinesRead
import SccSharp.Proofs.Room

/-!
# Checks one by one

The check of a file is the recorded parse of it, presented. Its report is the trace of the parse in
the style asked for, what its end calls for on the two outputs, and the notes (`checkFile_eq`).

A check of several files is made of the checks of each, every one on the standard input that the one
before it leaves. The outputs follow each other and the worst status counts (`checkFiles_eq`). The
one exception is a read that is not UTF-8: the check that comes to it has no status and no message,
and nothing is checked behind it. Texts that are UTF-8 never come to that (`checkFile_of_text`).

## Main Definitions

* `notesOn`, `reportOn` — the notes and the report on one source
* `singles` — the reports on several files, each by itself
* `reached`, `combined` — the reports up to input that is not UTF-8, put together

## Main Statements

* `checkFile_eq`, `checkFiles_eq` — one check, and several
* `every_input_told` — what becomes of every input
-/

namespace SccSharp

/-! ### Failures of a reader -/

/-- A read that fails was among those to come. -/
theorem failure_mem_of_seek {p p' : Place} {script left : List Reading} {reason : ReadFailure}
    (h : seek p script = (.failed reason, p', left)) : .failure reason ∈ script := by
  induction script generalizing p with
  | nil =>
      unfold seek at h
      split at h <;> cases h
  | cons reading script ih =>
      unfold seek at h
      split at h
      · cases h
      · split at h
        · cases h
          exact List.mem_cons_self
        · cases h
        · exact List.mem_cons_of_mem _ (ih h)

/-- A reader that cannot be read has a read that fails to come. -/
theorem failure_mem_of_breaks {r : Reader} {reason : ReadFailure}
    (h : Feed.Breaks r (.unreadable reason)) : .failure reason ∈ r.script := by
  generalize he : SourceFailure.unreadable reason = e at h
  induction h with
  | @now r r' e hdraw =>
      subst he
      have hdrawn := r.drawn
      rw [show r.draw = _ from hdraw] at hdrawn
      dsimp only at hdrawn
      cases hdrawn with
      | unreadable _ hseek => exact failure_mem_of_seek hseek
  | @later r r' t e hdraw _ ih =>
      obtain ⟨read, hscript, -⟩ := r.exists_read_of_draw
      rw [show r.draw = _ from hdraw] at hscript
      rw [hscript]
      exact List.mem_append_right _ (ih he)

/-- A reader that is drawn from gives the rest of its readings. -/
theorem suffix_of_leads {front last : Token × Reader} {tokens : List Token}
    (h : Feed.Leads front tokens last) : last.2.script <:+ front.2.script := by
  induction h with
  | refl => exact List.suffix_rfl
  | @pass a b s s' tokens last hdraw _ ih =>
      obtain ⟨read, hscript, -⟩ := s.exists_read_of_draw
      rw [show s.draw = _ from hdraw] at hscript
      exact ih.trans ⟨read, hscript.symm⟩

/-- So does the reader that a run leaves. -/
theorem suffix_of_ends {stack : CallStack} {c d : Cursor Reader} {agenda : Agenda}
    {stop : Option (Stop SourceFailure)} (h : Cursor.EndsOn stack c agenda stop d) :
    d.feed.script <:+ c.feed.script := by
  have hdrawn {drawn : Except SourceFailure Token} {feed : Reader}
      (hdraw : Feed.draw c.feed = (drawn, feed)) : feed.script <:+ c.feed.script := by
    obtain ⟨read, hscript, -⟩ := c.feed.exists_read_of_draw
    rw [show c.feed.draw = _ from hdraw] at hscript
    exact ⟨read, hscript.symm⟩
  have hreported {count : Nat} {c d : Cursor Reader} {expected : Expectation}
      (h : Cursor.Unreported stack count c expected d) : d.feed = c.feed := by
    cases h <;> rfl
  cases h with
  | halts _ hhalts =>
      cases hhalts with
      | done | mismatch | choice | tooDeep => exact List.suffix_rfl
      | starved hdraw => exact hdrawn hdraw
  | overflows hover =>
      cases hover with
      | closing | opening | accepting => exact List.suffix_rfl
      | drawing _ hdraw => exact hdrawn hdraw
      | mismatch _ hreport | choice _ _ hreport =>
          exact hreported hreport ▸ List.suffix_rfl

/-- **What a parse leaves** is the rest of the readings. -/
theorem suffix_recordedOn (stack : CallStack) (source : Reader) (start : Rule) :
    (recordedOn stack source start).2.feed.script <:+ source.script := by
  rcases recordedOn_cases stack source start with
    ⟨e, rest, hfirst, hparse⟩ | ⟨t, rest, stop, d, hfirst, hrun, hparse⟩
  · obtain ⟨read, hscript, -⟩ := source.exists_read_of_draw
    rw [show source.draw = _ from hfirst] at hscript
    rw [hparse]
    exact ⟨read, hscript.symm⟩
  · obtain ⟨c, agenda, hsteps, hends⟩ := Cursor.runOn_eq_iff.1 hrun
    obtain ⟨_, hleads, -⟩ := hsteps.steps.exists_after
    have hall : Feed.Leads (t, source) _ c.front := .pass hfirst hleads
    rw [hparse, Analyser.feed, d.feed_report]
    exact (suffix_of_ends hends).trans (suffix_of_leads hall)

/-- Where all readings are lines, no read fails. -/
theorem recordedOn_of_lines (stack : CallStack) (start : Rule) {source : Reader}
    (hlines : ∀ reading ∈ source.script, reading.isLine = true) (reason : ReadFailure) :
    (recordedOn stack source start).1 ≠ some (.sourceFailed (.unreadable reason)) := by
  intro hfailed
  exact absurd (hlines _ (failure_mem_of_breaks (breaks_of_recordedOn hfailed))) Bool.noConfusion

/-- The readings of a text are lines. -/
theorem isLine_of_mem_ofBytes {text : List Char} {newlines : Text.Newlines} {reading : Reading}
    (h : reading ∈ Reading.ofBytes (Text.Utf8.encode text) newlines) : reading.isLine = true := by
  rw [Reading.ofBytes_encode] at h
  obtain ⟨line, hline, rfl⟩ := List.mem_map.1 h
  cases line with
  | nil => exact absurd rfl (Text.ne_nil_of_mem_lines hline)
  | cons => rfl

namespace Command

/-! ### One check -/

/-- The notes on the check of a source, in order. -/
def notesOn (stack : CallStack) (start : Rule) (reader : Reader) : List Note :=
  let (stop, a) := recordedOn stack reader start
  match reader.draw with
  | (.error _, after) => endNotes reader after
  | (.ok first, after) =>
      endNotes reader after ++ .parsing start first ::
        (if a.lookahead?.any Token.isEnd then endNotes after a.feed else []) ++
          outcomeNotes a.consumed stop

/-- **The check of a reader is the recorded parse**, but that the events have been written. -/
theorem checkReader_eq (stack : CallStack) (start : Rule) (style : TraceStyle) (reader : Reader) :
    checkReader stack start style reader =
      ((recordedOn stack reader start).1, notesOn stack start reader,
        (recordedOn stack reader start).2.withSink
          ((Sink.writing style).emitAll (recordedOn stack reader start).2.sink.events)) := by
  have hparse := parseOn_eq_recordedOn stack reader (.writing style) start
  cases hfirst : reader.draw with
  | mk outcome after =>
      have hdraw : Feed.draw reader = (outcome, after) := hfirst
      rw [Analyser.parseOn, Analyser.start, hdraw] at hparse
      rw [checkReader, Analyser.start, notesOn, hfirst, hdraw]
      cases outcome with
      | error e =>
          obtain ⟨hstop, hanalyser⟩ := Prod.mk.inj hparse
          rw [← hstop, ← hanalyser]
          rfl
      | ok first =>
          cases hlast : Cursor.parseOn stack
            { feed := after, lookahead := first, sink := .writing style } start with
          | mk stop last =>
              simp only [hlast] at hparse ⊢
              obtain ⟨hstop, hanalyser⟩ := Prod.mk.inj hparse
              have hfeed : last.feed = (recordedOn stack reader start).2.feed :=
                (congrArg Analyser.feed hanalyser).trans (Analyser.feed_withSink _ _)
              have hconsumed : last.consumed = (recordedOn stack reader start).2.consumed :=
                (congrArg Analyser.consumed hanalyser).trans (Analyser.consumed_withSink _ _)
              have hahead : some last.lookahead = (recordedOn stack reader start).2.lookahead? :=
                (congrArg Analyser.lookahead? hanalyser).trans (Analyser.lookahead?_withSink _ _)
              rw [← hanalyser, ← hstop, ← hfeed, ← hconsumed, ← hahead, drawnNotes]
              rfl

/-- The report on a source that has been opened. -/
def reportOn (stack : CallStack) (request : CheckRequest) (verbose : Bool) (path : String)
    (stdin : List Reading) (reader : Reader) : Report :=
  let parse := recordedOn stack reader request.start
  { ending := (outcome path parse.1).1
    stdout := request.style.text parse.2.sink.events ++ (outcome path parse.1).2.1
    stderr := writtenNotes verbose (notesOn stack request.start reader) ++
      (outcome path parse.1).2.2
    stdin := leftOfInput stdin path parse.2.feed }

/-- **The check of a file** is the report on its source, if it can be opened. -/
theorem checkFile_eq (stack : CallStack) (request : CheckRequest) (verbose : Bool) (files : Files)
    (path : String) (stdin : List Reading) :
    checkFile stack request verbose files path stdin =
      match openSource files stdin path with
      | .error failure => notOpened path failure stdin
      | .ok reader => reportOn stack request verbose path stdin reader := by
  rw [checkFile]
  cases openSource files stdin path with
  | error failure => rfl
  | ok reader =>
      dsimp only
      rw [checkReader_eq]
      simp only [reportOn, Analyser.sink_withSink, Analyser.feed_withSink, Sink.written_emitAll]

/-! ### Messages -/

/-- **A text of whole lines**, one at least. -/
def WholeLines (text : String) : Prop :=
  ∃ body, text = body ++ "\n"

/-- It is not empty. -/
theorem WholeLines.ne_empty {text : String} (h : WholeLines text) : text ≠ "" := by
  obtain ⟨body, rfl⟩ := h
  intro hempty
  exact absurd (String.append_eq_empty_iff.1 hempty).2 (by decide)

/-- It stays one behind another text. -/
theorem WholeLines.append {text : String} (h : WholeLines text) (first : String) :
    WholeLines (first ++ text) := by
  obtain ⟨body, rfl⟩ := h
  exact ⟨first ++ body, String.append_assoc.symm⟩

/-- Lines that are each ended make a text of whole lines. -/
theorem wholeLines_join {lines : List String} (h : lines ≠ []) :
    WholeLines (String.join (lines.map (· ++ "\n"))) := by
  induction lines with
  | nil => exact absurd rfl h
  | cons line lines ih =>
      rw [List.map_cons, String.join_cons]
      by_cases hlines : lines = []
      · subst hlines
        exact ⟨line, String.append_empty⟩
      · exact (ih hlines).append _

/-- The message on a file that cannot be opened. -/
theorem wholeLines_notOpened (path : String) (failure : OpenFailure) (stdin : List Reading) :
    WholeLines (notOpened path failure stdin).stderr :=
  ⟨_, rfl⟩

/-- **A source that gives no token** is unusable and there is a message, unless it is not UTF-8. -/
theorem unusable_cases (path : String) (failure : SourceFailure) :
    (failure = .unreadable .notUtf8 ∧ unusable path failure = (.notUtf8, "")) ∨
      ∃ message, unusable path failure = (.status 2, message) ∧ WholeLines message := by
  cases failure with
  | malformed report => exact .inr ⟨_, rfl, wholeLines_join (List.cons_ne_nil _ _)⟩
  | unreadable reason =>
      cases reason with
      | system text => exact .inr ⟨_, rfl, ⟨_, rfl⟩⟩
      | notUtf8 => exact .inl ⟨rfl, rfl⟩

/-! ### What becomes of an input -/

/-- An input is unusable: it has the status two, and a message. -/
def Report.Unusable (report : Report) : Prop :=
  report.ending = .status 2 ∧ report.stderr ≠ ""

/-- **What is told of an input**, by how opening and parsing it end. An input has a status, and with
the status two a message; but where the parse comes to a read that is not UTF-8 it has neither. -/
def Told (stack : CallStack) (start : Rule) (opened : Except OpenFailure Reader)
    (report : Report) : Prop :=
  match opened with
  | .error _ => report.Unusable
  | .ok reader =>
      match (recordedOn stack reader start).1 with
      | none => report.ending = .status 0
      | some (.syntaxError _) => report.ending = .status 1
      | some (.sourceFailed (.unreadable .notUtf8)) => report.ending = .notUtf8
      | some _ => report.Unusable

/-- A report is unusable if its outcome is. -/
theorem unusable_reportOn {stack : CallStack} {request : CheckRequest} {path : String}
    {reader : Reader} {out message : String} (verbose : Bool) (stdin : List Reading)
    (h : outcome path (recordedOn stack reader request.start).1 = (.status 2, out, message))
    (hmessage : WholeLines message) :
    (reportOn stack request verbose path stdin reader).Unusable := by
  have hending := congrArg (·.1) h
  have hstderr := congrArg (·.2.2) h
  refine ⟨hending, ?_⟩
  show _ ++ (outcome path (recordedOn stack reader request.start).1).2.2 ≠ ""
  rw [hstderr]
  exact (hmessage.append _).ne_empty

/-- **What is told of every input.** -/
theorem told_checkFile (stack : CallStack) (request : CheckRequest) (verbose : Bool) (files : Files)
    (path : String) (stdin : List Reading) :
    Told stack request.start (openSource files stdin path)
      (checkFile stack request verbose files path stdin) := by
  rw [checkFile_eq]
  cases openSource files stdin path with
  | error failure => exact ⟨rfl, (wholeLines_notOpened path failure stdin).ne_empty⟩
  | ok reader =>
      unfold Told
      dsimp only
      have hunusable := @unusable_reportOn stack request path reader
      have hending : (reportOn stack request verbose path stdin reader).ending =
        (outcome path (recordedOn stack reader request.start).1).1 := rfl
      cases hstop : (recordedOn stack reader request.start).1 with
      | none => rw [hending, hstop]; rfl
      | some stop =>
          rw [hstop] at hunusable hending
          cases stop with
          | syntaxError e => exact hending
          | tooDeep e => exact hunusable verbose stdin rfl ⟨_, rfl⟩
          | misused m => exact hunusable verbose stdin rfl ⟨_, rfl⟩
          | sourceFailed failure =>
              rcases unusable_cases path failure with ⟨rfl, -⟩ | ⟨message, hfailure, hmessage⟩
              · exact hending
              · have houtcome : outcome path (some (.sourceFailed failure)) =
                    (.status 2, "", message) := by rw [outcome, hfailure]
                have hreport := hunusable verbose stdin houtcome hmessage
                cases failure with
                | malformed => exact hreport
                | unreadable reason =>
                    cases reason with
                    | system => exact hreport
                    | notUtf8 => cases hfailure

/-- **What is told of a file whose tokens are listed.** -/
theorem told_lexFile (verbose : Bool) (files : Files) (path : String) (stdin : List Reading) :
    match openSource files stdin path with
    | .error _ => (lexFile verbose files path stdin).Unusable
    | .ok reader =>
        match tokensOf reader with
        | .ok tokens =>
            (lexFile verbose files path stdin).ending = .status 0 ∧
              (lexFile verbose files path stdin).stdout = String.join (tokens.map tokenLine)
        | .error (.unreadable .notUtf8) => (lexFile verbose files path stdin).ending = .notUtf8
        | .error _ => (lexFile verbose files path stdin).Unusable := by
  rw [lexFile]
  cases hopened : openSource files stdin path with
  | error failure => exact ⟨rfl, (wholeLines_notOpened path failure stdin).ne_empty⟩
  | ok reader =>
      dsimp only
      unfold tokensOf
      cases hdrain : Feed.drain reader with
      | mk tokens rest =>
          obtain ⟨failure?, last⟩ := rest
          cases failure? with
          | none => exact ⟨rfl, rfl⟩
          | some failure =>
              dsimp only
              rcases unusable_cases path failure with
                ⟨rfl, hfailure⟩ | ⟨message, hfailure, hmessage⟩
              · rfl
              · rw [hfailure]
                have hreport (r : Report) (hr : r.ending = .status 2)
                    (hr' : r.stderr = writtenNotes verbose (endNotes reader last) ++ message) :
                    r.Unusable := ⟨hr, hr' ▸ (hmessage.append _).ne_empty⟩
                cases failure with
                | malformed => exact hreport _ rfl rfl
                | unreadable reason =>
                    cases reason with
                    | system => exact hreport _ rfl rfl
                    | notUtf8 => cases hfailure

/-! ### Several files -/

/-- **The reports on several files, each by itself**, on the standard input that is left for it. -/
def singles (stack : CallStack) (request : CheckRequest) (verbose : Bool) (files : Files) :
    List String → List Reading → List Report
  | [], _ => []
  | path :: paths, stdin =>
      let report := checkFile stack request verbose files path stdin
      report :: singles stack request verbose files paths report.stdin

/-- There is one for each file. -/
theorem length_singles (stack : CallStack) (request : CheckRequest) (verbose : Bool) (files : Files)
    (paths : List String) (stdin : List Reading) :
    (singles stack request verbose files paths stdin).length = paths.length := by
  induction paths generalizing stdin with
  | nil => rfl
  | cons path paths ih => exact congrArg Nat.succ (ih _)

/-- The reports up to the first on input that is not UTF-8, this one included. -/
def reached : List Report → List Report
  | [] => []
  | report :: reports =>
      match report.ending with
      | .notUtf8 => [report]
      | .status _ => report :: reached reports

/-- **Reports put together**: the worst ending counts, and the outputs follow each other. -/
def combined (stdin : List Reading) (reports : List Report) : Report where
  ending := (reports.map Report.ending).foldr Ending.worse (.status 0)
  stdout := String.join (reports.map Report.stdout)
  stderr := String.join (reports.map Report.stderr)
  stdin := reports.foldl (fun _ report => report.stdin) stdin

/-- A report with others behind it. -/
theorem combined_cons (stdin : List Reading) (report : Report) (reports : List Report) :
    combined stdin (report :: reports) =
      { ending := report.ending.worse (combined report.stdin reports).ending
        stdout := report.stdout ++ (combined report.stdin reports).stdout
        stderr := report.stderr ++ (combined report.stdin reports).stderr
        stdin := (combined report.stdin reports).stdin } := by
  simp only [combined, List.map_cons, String.join_cons, List.foldr_cons, List.foldl_cons]

/-- **The check of several files** is the checks of each, put together. -/
theorem checkFiles_eq (stack : CallStack) (request : CheckRequest) (verbose : Bool) (files : Files)
    (paths : List String) (stdin : List Reading) :
    checkFiles stack request verbose files paths stdin =
      combined stdin (reached (singles stack request verbose files paths stdin)) := by
  induction paths generalizing stdin with
  | nil => rfl
  | cons path paths ih =>
      rw [checkFiles, Report.andThen, singles, reached]
      dsimp only
      cases hending : (checkFile stack request verbose files path stdin).ending with
      | status code =>
          dsimp only
          rw [combined_cons, ← ih, hending]
      | notUtf8 =>
          dsimp only
          rw [combined_cons]
          generalize checkFile stack request verbose files path stdin = report at hending ⊢
          obtain ⟨ending, stdout, stderr, left⟩ := report
          dsimp only at hending
          subst hending
          simp [combined, Ending.worse]

/-- All reports are reached where each has a status, and the greatest one counts. -/
theorem combined_of_statuses {reports : List Report} {statuses : List Nat} (stdin : List Reading)
    (h : reports.map Report.ending = statuses.map .status) :
    reached reports = reports ∧
      (combined stdin reports).ending = .status (statuses.foldr max 0) := by
  induction reports generalizing stdin statuses with
  | nil =>
      cases statuses with
      | nil => exact ⟨rfl, rfl⟩
      | cons => cases h
  | cons report reports ih =>
      cases statuses with
      | nil => cases h
      | cons status statuses =>
          obtain ⟨hending, hrest⟩ := List.cons.inj h
          obtain ⟨hreached, hworst⟩ := ih report.stdin hrest
          rw [reached, combined_cons, hending, hreached, hworst]
          exact ⟨rfl, rfl⟩

/-- Reports that all have a status have statuses. -/
theorem exists_statuses {reports : List Report} (h : ∀ report ∈ reports, report.ending ≠ .notUtf8) :
    ∃ statuses : List Nat, reports.map Report.ending = statuses.map .status := by
  induction reports with
  | nil => exact ⟨[], rfl⟩
  | cons report reports ih =>
      obtain ⟨hreport, hreports⟩ := List.forall_mem_cons.1 h
      obtain ⟨statuses, hstatuses⟩ := ih hreports
      cases hending : report.ending with
      | notUtf8 => exact absurd hending hreport
      | status status =>
          refine ⟨status :: statuses, ?_⟩
          rw [List.map_cons, List.map_cons, hending, hstatuses]

/-- **A read that is not UTF-8** is what ends the check of several files without a status. -/
theorem combined_reached_notUtf8_iff (stdin : List Reading) (reports : List Report) :
    (combined stdin (reached reports)).ending = .notUtf8 ↔
      ∃ report ∈ reports, report.ending = .notUtf8 := by
  induction reports generalizing stdin with
  | nil => exact ⟨nofun, nofun⟩
  | cons report reports ih =>
      rw [reached]
      simp only [List.mem_cons, exists_eq_or_imp]
      cases hending : report.ending with
      | status code =>
          dsimp only
          rw [combined_cons, hending, ← ih report.stdin]
          cases (combined report.stdin (reached reports)).ending with
          | status other => exact ⟨nofun, fun h => h.elim nofun nofun⟩
          | notUtf8 => exact ⟨fun _ => .inr rfl, fun _ => rfl⟩
      | notUtf8 =>
          dsimp only
          rw [combined_cons, hending]
          exact ⟨fun _ => .inl rfl, fun _ => rfl⟩

/-- A file leaves the standard input as it is. -/
theorem stdin_checkFile {stack : CallStack} {request : CheckRequest} {verbose : Bool}
    {files : Files} {path : String} {stdin : List Reading} (h : path ≠ standardInput) :
    (checkFile stack request verbose files path stdin).stdin = stdin := by
  rw [checkFile_eq]
  split
  · rfl
  · exact if_neg h

/-! ### Texts -/

/-- **A file that is a text**: if it can be opened, it is UTF-8. -/
def Files.IsText (files : Files) (path : String) : Prop :=
  ∀ bytes, files path = .ok bytes → ∃ text, bytes = Text.Utf8.encode text

/-- One text under a name, and no other files. -/
def Files.only (name : String) (text : List Char) : Files :=
  fun path => if path = name then .ok (Text.Utf8.encode text) else .error .missing

/-- Its files are texts. -/
theorem Files.isText_only (name : String) (text : List Char) (path : String) :
    (only name text).IsText path := by
  intro bytes hbytes
  unfold only at hbytes
  split at hbytes
  · cases hbytes
    exact ⟨text, rfl⟩
  · cases hbytes

/-- Without carriage returns, its reader is one over the text. -/
theorem openSource_only {name text : String} (stdin : List Reading) (hname : name ≠ standardInput)
    (hreturns : '\r' ∉ text.toList) :
    openSource (Files.only name text.toList) stdin name = .ok (Reader.ofText text name) := by
  have hbytes : Files.only name text.toList name = .ok (Text.Utf8.encode text.toList) := if_pos rfl
  rw [openSource, if_neg hname, hbytes, shownName, if_neg hname]
  show Except.ok (Reader.ofBytes _ name) = _
  rw [Reader.ofBytes, Reading.ofBytes_encode, Text.Newlines.read,
    Text.unifyNewlines_of_not_mem hreturns]
  rfl

section Texts

variable {files : Files} {stdin : List Reading}
variable (stack : CallStack) (request : CheckRequest) (verbose : Bool)

/-- What is opened then gives lines. -/
theorem openSource_of_text {path : String} {reader : Reader}
    (hfile : path ≠ standardInput → files.IsText path)
    (hstdin : ∀ reading ∈ stdin, reading.isLine = true)
    (h : openSource files stdin path = .ok reader) :
    ∀ reading ∈ reader.script, reading.isLine = true := by
  unfold openSource at h
  split at h
  · cases h
    exact hstdin
  · next hpath =>
    cases hbytes : files path with
    | error failure =>
        rw [hbytes] at h
        cases h
    | ok bytes =>
        rw [hbytes] at h
        cases h
        obtain ⟨text, rfl⟩ := hfile hpath bytes hbytes
        exact fun reading => isLine_of_mem_ofBytes

/-- **A text has a status**, and leaves lines on the standard input. -/
theorem checkFile_of_text {path : String} (hfile : path ≠ standardInput → files.IsText path)
    (hstdin : ∀ reading ∈ stdin, reading.isLine = true) :
    (checkFile stack request verbose files path stdin).ending ≠ .notUtf8 ∧
      ∀ reading ∈ (checkFile stack request verbose files path stdin).stdin,
        reading.isLine = true := by
  have htold := told_checkFile stack request verbose files path stdin
  rw [checkFile_eq] at htold ⊢
  cases hopened : openSource files stdin path with
  | error failure => exact ⟨nofun, hstdin⟩
  | ok reader =>
      have hlines := openSource_of_text hfile hstdin hopened
      rw [hopened] at htold
      dsimp only [Told] at htold ⊢
      constructor
      · intro hending
        rw [hending] at htold
        split at htold
        · cases htold
        · cases htold
        · next hfailed => exact recordedOn_of_lines stack request.start hlines _ hfailed
        · cases hending.symm.trans htold.1
      · show ∀ reading ∈
          leftOfInput stdin path (recordedOn stack reader request.start).2.feed, _
        unfold leftOfInput
        split
        · exact fun reading hmem =>
            hlines reading ((suffix_recordedOn stack reader request.start).subset hmem)
        · exact hstdin

/-- So do several. -/
theorem singles_of_texts {paths : List String}
    (hfiles : ∀ path ∈ paths, path ≠ standardInput → files.IsText path)
    (hstdin : ∀ reading ∈ stdin, reading.isLine = true) :
    ∀ report ∈ singles stack request verbose files paths stdin, report.ending ≠ .notUtf8 := by
  induction paths generalizing stdin with
  | nil => exact List.forall_mem_nil _
  | cons path paths ih =>
      obtain ⟨hfile, hfiles⟩ := List.forall_mem_cons.1 hfiles
      obtain ⟨hending, hleft⟩ := checkFile_of_text stack request verbose hfile hstdin
      exact List.forall_mem_cons.2 ⟨hending, ih hfiles hleft⟩

/-- So all of them are reached. -/
theorem reached_of_texts {paths : List String}
    (hfiles : ∀ path ∈ paths, path ≠ standardInput → files.IsText path)
    (hstdin : ∀ reading ∈ stdin, reading.isLine = true) :
    reached (singles stack request verbose files paths stdin) =
      singles stack request verbose files paths stdin := by
  obtain ⟨statuses, hstatuses⟩ :=
    exists_statuses (singles_of_texts stack request verbose hfiles hstdin)
  exact (combined_of_statuses stdin hstatuses).1

end Texts

/-! ### Whole runs -/

/-- The note that a command is carried out, where it is written. -/
def runningNote (verbose : Bool) (command : String) : String :=
  writtenNotes verbose [.running command]

/-- A report with a note in front of its messages. -/
def Report.noted (report : Report) (note : String) : Report :=
  { report with stderr := note ++ report.stderr }

/-- No note at all changes nothing. -/
@[simp] theorem Report.noted_empty (report : Report) : report.noted "" = report := by
  rw [noted, String.empty_append]

/-- A report stays unusable behind a note. -/
theorem Report.Unusable.noted {report : Report} (h : report.Unusable) (note : String) :
    (report.noted note).Unusable := by
  refine ⟨h.1, fun hempty => h.2 ?_⟩
  exact (String.append_eq_empty_iff.1 hempty).2

section

variable (callStacks : CallStacks) (verbose : Bool) (extras : List String) (files : Files)
variable (stdin : List Reading)

/-- A check is carried out behind a note that says so. -/
theorem run_eq_noted (request : CheckRequest) :
    run ⟨verbose, .check request, extras⟩ files stdin callStacks =
      (checkFiles (callStacks request.style verbose) request verbose files request.files
        stdin).noted (runningNote verbose "check") := rfl

/-- **A check is carried out** file by file. -/
theorem run_check (request : CheckRequest) :
    run ⟨verbose, .check request, extras⟩ files stdin callStacks =
      (combined stdin (reached (singles (callStacks request.style verbose) request verbose files
        request.files stdin))).noted (runningNote verbose "check") := by
  rw [run_eq_noted, checkFiles_eq]

/-- The check of one file by itself. -/
theorem run_single (request : CheckRequest) (path : String) :
    run ⟨verbose, .check { request with files := [path] }, extras⟩ files stdin callStacks =
      (checkFile (callStacks request.style verbose) request verbose files path stdin).noted
        (runningNote verbose "check") := by
  have hsingles : singles (callStacks request.style verbose) { request with files := [path] }
      verbose files [path] stdin =
      [checkFile (callStacks request.style verbose) request verbose files path stdin] := rfl
  rw [run_check]
  show (combined stdin (reached (singles (callStacks request.style verbose) _ verbose files [path]
    stdin))).noted _ = _
  rw [hsingles]
  generalize checkFile (callStacks request.style verbose) request verbose files path stdin = report
  obtain ⟨ending, stdout, stderr, left⟩ := report
  cases ending with
  | notUtf8 => simp [reached, combined, Ending.worse]
  | status code => simp [reached, combined, Ending.worse]

/-- The check of the one file that there is. -/
theorem run_only (request : CheckRequest) {name text : String} (hname : name ≠ standardInput)
    (hreturns : '\r' ∉ text.toList) :
    run ⟨verbose, .check { request with files := [name] }, extras⟩ (Files.only name text.toList)
        stdin callStacks =
      (reportOn (callStacks request.style verbose) request verbose name stdin
        (Reader.ofText text name)).noted (runningNote verbose "check") := by
  rw [run_single, checkFile_eq, openSource_only stdin hname hreturns]

/-- How it ends. -/
theorem ending_run_only (request : CheckRequest) {name text : String} (hname : name ≠ standardInput)
    (hreturns : '\r' ∉ text.toList) :
    (run ⟨verbose, .check { request with files := [name] }, extras⟩ (Files.only name text.toList)
        stdin callStacks).ending =
      (outcome name (recordedOn (callStacks request.style verbose) (Reader.ofText text name)
        request.start).1).1 := by
  rw [run_only callStacks verbose extras stdin request hname hreturns]
  rfl

/-- **Every input is told of**, up to a read that is not UTF-8, whatever the call stacks have room
for.

* The check of a file has a status, with a message if it is two, just as opening and parsing the
  file end (`Told`). If the parse comes to a read that is not UTF-8, it has neither.
* The check of several files ends without a status just if the check of one of them does. Otherwise
  each of them is checked, their outputs follow each other, and the greatest status counts.
* Listing the tokens of a file gives the status zero, or two with a message, or neither if it comes
  to a read that is not UTF-8.
* Where all inputs are UTF-8, none of that happens. -/
theorem every_input_told :
    (∀ (request : CheckRequest) (path : String),
      let stack := callStacks request.style verbose
      Told stack request.start (openSource files stdin path)
        (checkFile stack request verbose files path stdin)) ∧
    (∀ request : CheckRequest,
      let reports :=
        singles (callStacks request.style verbose) request verbose files request.files stdin
      let report := run ⟨verbose, .check request, extras⟩ files stdin callStacks
      reports.length = request.files.length ∧
      (report.ending = .notUtf8 ↔ ∃ single ∈ reports, single.ending = .notUtf8) ∧
      (∀ statuses : List Nat, reports.map Report.ending = statuses.map .status →
        report.ending = .status (statuses.foldr max 0) ∧
        report.stdout = String.join (reports.map Report.stdout) ∧
        report.stderr = runningNote verbose "check" ++ String.join (reports.map Report.stderr)) ∧
      ((∀ path ∈ request.files, path ≠ standardInput → files.IsText path) →
        (∀ reading ∈ stdin, reading.isLine = true) → report.ending ≠ .notUtf8)) ∧
    (∀ path : String,
      let report := run ⟨verbose, .lex path, extras⟩ files stdin callStacks
      match openSource files stdin path with
      | .error _ => report.Unusable
      | .ok reader =>
          match tokensOf reader with
          | .ok tokens =>
              report.ending = .status 0 ∧ report.stdout = String.join (tokens.map tokenLine)
          | .error (.unreadable .notUtf8) => report.ending = .notUtf8
          | .error _ => report.Unusable) := by
  refine ⟨fun request path => told_checkFile _ request verbose files path stdin, ?_, ?_⟩
  · intro request reports report
    have hreport := run_check callStacks verbose extras files stdin request
    refine ⟨length_singles .., ?_, ?_, ?_⟩
    · rw [show report = _ from hreport]
      exact combined_reached_notUtf8_iff stdin reports
    · intro statuses hstatuses
      obtain ⟨hreached, hworst⟩ := combined_of_statuses stdin hstatuses
      rw [show report = _ from hreport, hreached]
      exact ⟨hworst, rfl, rfl⟩
    · intro hfiles hstdin hending
      rw [show report = _ from hreport] at hending
      obtain ⟨single, hmem, hsingle⟩ := (combined_reached_notUtf8_iff stdin reports).1 hending
      exact singles_of_texts _ request verbose hfiles hstdin single hmem hsingle
  · intro path report
    have htold := told_lexFile verbose files path stdin
    generalize hlex : lexFile verbose files path stdin = lexed at htold
    have hreport : report = lexed.noted (runningNote verbose "lex") := by
      rw [← hlex]
      rfl
    rw [hreport]
    split at htold
    · exact htold.noted _
    · split at htold
      · exact htold
      · exact htold
      · exact htold.noted _

end

/-- A file that cannot be cut into tokens and one that is missing are both told of. -/
theorem every_input_told_numberSign :
    let request : CheckRequest := { files := ["sign.scc", "missing.scc"] }
    let files := Files.only "sign.scc" ['#']
    let reports := singles (.standard true false) request false files request.files []
    let report := run ⟨false, .check request, []⟩ files []
    reports.map Report.ending = [.status 2, .status 2] ∧ report.ending = .status 2 ∧
      report.stderr = String.join (reports.map Report.stderr) ∧ report.ending ≠ .notUtf8 := by
  intro request files reports report
  have hendings : reports.map Report.ending = [2, 2].map Ending.status := by rfl
  obtain ⟨-, hchecks, -⟩ := every_input_told .standard false [] files []
  obtain ⟨-, -, hstatuses, hutf8⟩ := hchecks request
  obtain ⟨hworst, -, hstderr⟩ := hstatuses [2, 2] hendings
  refine ⟨hendings, hworst, hstderr.trans String.empty_append, hutf8 ?_ (List.forall_mem_nil _)⟩
  exact fun path _ _ => Files.isText_only "sign.scc" ['#'] path

/-- **A byte that no character holds** ends a check without a status and without a message, and the
file behind it is not checked. -/
theorem run_check_strayByte :
    run ⟨false, .check { files := ["bad.scc", "good.scc"], quiet := true }, []⟩
        (fun path => .ok (if path = "bad.scc" then [0xFF]
          else Text.Utf8.encode "begin x := \"a\" end".toList)) [] =
      { ending := .notUtf8, stdin := [] } := by
  rfl

end Command

end SccSharp
