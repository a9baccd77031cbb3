import SccSharp.Proofs.Checks

/-!
# What is found and how it is shown

A check finds the same however it is shown, as long as its parses fit their call stacks. What it
finds are lines: those of the events of each parse, those of the trail behind a syntax error, the
messages and the notes. The marker, quietness and verbosity decide only which of these lines are
written and what stands in front of them.

* The marker stands in front of the lines of a trace, and of no others.
* A quiet check leaves out the lines of rules and tokens, and no others.
* A check that is not verbose leaves out the notes, and no messages.

So the findings of several files are put together without a look at how they are shown
(`checkFiles_eq_shown`), and a run shows them (`presentation_changes_nothing`).

What is shown does take room on the call stack, though, more for a rule that is written and most for
the note on the end of a source. So a parse may be given up because of what is shown of it
(`run_check_verbose`). It has then told a beginning of what it would have told with more room.

## Main Definitions

* `OutputLine`, `ErrorLine` — lines of the two outputs, with what they are
* `parseLines` — the lines of one parse
* `Findings` — what a check finds, `Findings.shown` the report that shows it
* `findings`, `findingsAll`, `runFindings` — what the check of one file finds, of several, and a run

## Main Statements

* `checkFiles_eq_shown` — a check shows what it finds
* `presentation_changes_nothing` — for every sink and for every run
-/

namespace SccSharp

/-- **Two parses make the same of their source**: they end in the same way, errors with all their
entries included, they accept as many tokens, and they have drawn the same and look at the same. -/
structure SameParse {σ ε : Type} (p p' : Option (Stop ε) × Analyser σ) : Prop where
  stop : p.1 = p'.1
  consumed : p.2.consumed = p'.2.consumed
  lookahead : p.2.lookahead? = p'.2.lookahead?
  feed : p.2.feed = p'.2.feed

namespace SameParse

variable {σ ε : Type} {p p' p'' : Option (Stop ε) × Analyser σ}

theorem symm (h : SameParse p p') : SameParse p' p :=
  ⟨h.stop.symm, h.consumed.symm, h.lookahead.symm, h.feed.symm⟩

theorem trans (h : SameParse p p') (h' : SameParse p' p'') : SameParse p p'' :=
  ⟨h.stop.trans h'.stop, h.consumed.trans h'.consumed, h.lookahead.trans h'.lookahead,
    h.feed.trans h'.feed⟩

end SameParse

section

variable {σ ε : Type} [Feed σ ε] {stack stack' : CallStack} {source : σ} {start : Rule}

/-- **Every sink sees the same parse** on one call stack. -/
theorem sameParse_recordedOn (stack : CallStack) (source : σ) (sink : Sink) (start : Rule) :
    SameParse ((Analyser.fresh source sink).parseOn stack start)
      (recordedOn stack source start) := by
  rw [parseOn_eq_recordedOn]
  exact ⟨rfl, Analyser.consumed_withSink _ _, Analyser.lookahead?_withSink _ _,
    Analyser.feed_withSink _ _⟩

/-- A parse that is not given up is the recorded one without a limit, whatever the sink. -/
theorem sameParse_recorded {sink : Sink}
    (h : ∀ e, ((Analyser.fresh source sink).parseOn stack start).1 ≠ some (.tooDeep e)) :
    Fits stack source start ∧
      SameParse ((Analyser.fresh source sink).parseOn stack start)
        (recorded none source start) := by
  have hsame := sameParse_recordedOn stack source sink start
  have hfits : Fits stack source start := fits_of_ne_tooDeep fun e => hsame.stop ▸ h e
  exact ⟨hfits, recordedOn_of_fits hfits ▸ hsame⟩

/-- **What a parse writes** is the text of the events recorded on its call stack. -/
theorem written_parseOn (style : TraceStyle) :
    ((Analyser.fresh source (.writing style)).parseOn stack start).2.sink.written =
      style.text (recordedOn stack source start).2.sink.events := by
  rw [parseOn_eq_recordedOn, Analyser.sink_withSink, Sink.written_emitAll]

end

/-- A chain has a line at least. -/
theorem SyntaxError.trail_ne_nil (e : SyntaxError) (indent : String) : e.trail indent ≠ [] := by
  intro hnil
  have hlength := congrArg List.length hnil
  rw [trail, List.length_mapIdx, List.length_reverse] at hlength
  cases hlength

/-- Lines with line feeds between them and one at the end are lines that are each ended. -/
theorem intercalate_append_newline {lines : List String} (h : lines ≠ []) :
    "\n".intercalate lines ++ "\n" = String.join (lines.map (· ++ "\n")) := by
  induction lines with
  | nil => exact absurd rfl h
  | cons line lines ih =>
      cases lines with
      | nil =>
          rw [String.intercalate_singleton, List.map_singleton, String.join_cons, String.join_nil,
            String.append_empty]
      | cons next lines =>
          rw [String.intercalate_cons_cons, List.map_cons, String.join_cons,
            ← ih (List.cons_ne_nil _ _)]
          simp only [String.append_assoc]

namespace Command

/-! ### The standard output -/

/-- A line of the standard output. -/
inductive OutputLine where
  /-- A line of an event in a trace. -/
  | trace (e : Event) (line : String)
  /-- A line of the trail behind a trace. -/
  | trail (line : String)
  deriving DecidableEq, Repr

/-- Whether a line is one of a rule or a token. -/
def OutputLine.isStep : OutputLine → Bool
  | trace e _ => !e.isOutcome
  | trail _ => false

/-- A line as it is shown: the marker stands in front of those of a trace. -/
def OutputLine.shown (marker : String) : OutputLine → String
  | trace _ line => marker ++ line ++ "\n"
  | trail line => line ++ "\n"

/-- **What is shown of some lines**: a quiet check leaves out those of rules and tokens. -/
def shownOutput (marker : String) (quiet : Bool) (lines : List OutputLine) : String :=
  String.join ((if quiet then lines.filter (!·.isStep) else lines).map (OutputLine.shown marker))

theorem shownOutput_append (marker : String) (quiet : Bool) (first second : List OutputLine) :
    shownOutput marker quiet (first ++ second) =
      shownOutput marker quiet first ++ shownOutput marker quiet second := by
  cases quiet <;> simp [shownOutput, String.join_append]

/-- Lines that are no steps are all shown. -/
theorem shownOutput_of_kept {lines : List OutputLine} (marker : String) (quiet : Bool)
    (h : ∀ line ∈ lines, line.isStep = false) :
    shownOutput marker quiet lines = String.join (lines.map (OutputLine.shown marker)) := by
  have hkept : lines.filter (!·.isStep) = lines :=
    List.filter_eq_self.2 fun line hmem => by rw [h line hmem]; rfl
  rw [shownOutput, hkept, ite_self]

/-- A quiet check shows nothing of steps. -/
theorem shownOutput_of_steps {lines : List OutputLine} (marker : String)
    (h : ∀ line ∈ lines, line.isStep = true) : shownOutput marker true lines = "" := by
  have hnone : lines.filter (!·.isStep) = [] :=
    List.filter_eq_nil_iff.2 fun line hmem => by rw [h line hmem]; exact Bool.false_ne_true
  rw [shownOutput, if_pos rfl, hnone]
  rfl

/-- The lines of an event. -/
def eventLines (e : Event) : List OutputLine :=
  e.lines.map (.trace e)

/-- Of one event all lines are steps, or none. -/
theorem isStep_of_mem_eventLines {e : Event} {line : OutputLine} (h : line ∈ eventLines e) :
    line.isStep = !e.isOutcome := by
  obtain ⟨text, -, rfl⟩ := List.mem_map.1 h
  rfl

/-- A style shows the lines of an event. -/
theorem render_eq_shownOutput (marker : String) (quiet : Bool) (e : Event) :
    TraceStyle.render ⟨marker, !quiet⟩ e = shownOutput marker quiet (eventLines e) := by
  have hall : String.join (e.lines.map fun line => marker ++ line ++ "\n") =
      String.join ((eventLines e).map (OutputLine.shown marker)) := by
    rw [eventLines, List.map_map]
    rfl
  rw [TraceStyle.render, hall]
  cases hkind : e.isOutcome with
  | true =>
      have hkept : ∀ line ∈ eventLines e, line.isStep = false := by
        intro line hmem
        rw [isStep_of_mem_eventLines hmem, hkind]
        rfl
      rw [Bool.or_true, if_pos rfl, shownOutput_of_kept marker quiet hkept]
  | false =>
      cases quiet with
      | false => rfl
      | true =>
          have hsteps : ∀ line ∈ eventLines e, line.isStep = true := by
            intro line hmem
            rw [isStep_of_mem_eventLines hmem, hkind]
            rfl
          rw [shownOutput_of_steps marker hsteps]
          rfl

/-- A style shows the lines of a trace. -/
theorem text_eq_shownOutput (marker : String) (quiet : Bool) (events : List Event) :
    TraceStyle.text ⟨marker, !quiet⟩ events =
      shownOutput marker quiet (events.flatMap eventLines) := by
  induction events with
  | nil => cases quiet <;> rfl
  | cons e events ih =>
      rw [TraceStyle.text_cons, ih, render_eq_shownOutput, List.flatMap_cons, shownOutput_append]

/-- The lines of the trail behind a syntax error. -/
def trailLines (e : SyntaxError) : List OutputLine :=
  .trail "Compilation Exception" :: e.trail.map .trail

/-- The trail of a stop, if it is a syntax error. -/
def stopLines : Option (Stop SourceFailure) → List OutputLine
  | some (.syntaxError e) => trailLines e
  | _ => []

/-- **The lines of a parse**: those of its trace, and of the trail behind it. -/
def parseLines (start : Rule) (source : Reader) : List OutputLine :=
  let (stop, a) := recorded none source start
  a.sink.events.flatMap eventLines ++ stopLines stop

/-- The trail is shown whole, without the marker. -/
theorem trailText_eq_shownOutput (marker : String) (quiet : Bool) (e : SyntaxError) :
    "Compilation Exception\n" ++ e.trailText ++ "\n" = shownOutput marker quiet (trailLines e) := by
  have hkept : ∀ line ∈ trailLines e, line.isStep = false := by
    intro line hmem
    rcases List.mem_cons.1 hmem with rfl | hmem
    · rfl
    · obtain ⟨text, -, rfl⟩ := List.mem_map.1 hmem
      rfl
  rw [shownOutput_of_kept marker quiet hkept, SyntaxError.trailText, String.append_assoc,
    intercalate_append_newline (e.trail_ne_nil _), trailLines, List.map_cons, String.join_cons,
    List.map_map]
  rfl

/-- What the end of a parse calls for is shown whole. -/
theorem outcome_eq_shownOutput (marker : String) (quiet : Bool) (path : String)
    (stop : Option (Stop SourceFailure)) :
    (outcome path stop).2.1 = shownOutput marker quiet (stopLines stop) := by
  have hnone : "" = shownOutput marker quiet [] := by cases quiet <;> rfl
  cases stop with
  | none => exact hnone
  | some stop =>
      cases stop with
      | syntaxError e => exact trailText_eq_shownOutput marker quiet e
      | sourceFailed | tooDeep | misused => exact hnone

/-! ### The error output -/

/-- A piece of the error output. -/
inductive ErrorLine where
  | note (n : Note)
  | message (text : String)
  deriving DecidableEq, Repr

/-- Whether a piece is a note. -/
def ErrorLine.isNote : ErrorLine → Bool
  | note _ => true
  | message _ => false

/-- A piece as it is written. -/
def ErrorLine.text : ErrorLine → String
  | note n => n.line
  | message text => text

/-- **What is shown of some pieces**: the notes are left out unless the check is verbose. -/
def shownErrors (verbose : Bool) (lines : List ErrorLine) : String :=
  String.join ((if verbose then lines else lines.filter (!·.isNote)).map ErrorLine.text)

theorem shownErrors_append (verbose : Bool) (first second : List ErrorLine) :
    shownErrors verbose (first ++ second) =
      shownErrors verbose first ++ shownErrors verbose second := by
  cases verbose <;> simp [shownErrors, String.join_append]

/-- Notes are shown as they are written. -/
theorem writtenNotes_eq_shownErrors (verbose : Bool) (notes : List Note) :
    writtenNotes verbose notes = shownErrors verbose (notes.map .note) := by
  cases verbose with
  | false =>
      have hnone : (notes.map ErrorLine.note).filter (!·.isNote) = [] := by
        simp [List.filter_map, Function.comp_def, ErrorLine.isNote]
      rw [shownErrors, if_neg Bool.false_ne_true, hnone]
      rfl
  | true =>
      rw [writtenNotes, shownErrors, if_pos rfl, if_pos rfl, List.map_map]
      rfl

/-- A message, unless there is nothing to say. -/
def messageLines (text : String) : List ErrorLine :=
  if text = "" then [] else [.message text]

/-- A message is always shown. -/
theorem shownErrors_messageLines (verbose : Bool) (text : String) :
    shownErrors verbose (messageLines text) = text := by
  unfold messageLines
  split
  · next hempty => cases verbose <;> exact hempty.symm
  · cases verbose <;> simp [shownErrors, ErrorLine.isNote, ErrorLine.text]

/-! ### Findings -/

/-- **What a check finds**, before it is shown, and the sources that it has opened. -/
structure Findings where
  sources : List Reader := []
  ending : Ending
  output : List OutputLine := []
  errors : List ErrorLine := []
  stdin : List Reading
  deriving DecidableEq, Repr

namespace Findings

/-- **The report that shows findings.** -/
def shown (f : Findings) (marker : String) (quiet verbose : Bool) : Report where
  ending := f.ending
  stdout := shownOutput marker quiet f.output
  stderr := shownErrors verbose f.errors
  stdin := f.stdin

/-- Findings followed by those on the standard input left. -/
def andThen (first : Findings) (next : List Reading → Findings) : Findings :=
  match first.ending with
  | .notUtf8 => first
  | .status _ =>
      let second := next first.stdin
      { sources := first.sources ++ second.sources
        ending := first.ending.worse second.ending
        output := first.output ++ second.output
        errors := first.errors ++ second.errors
        stdin := second.stdin }

/-- A report that shows findings, and what follows it, show the findings that follow each other, if
that shows those that are reached. -/
theorem shown_andThen {first : Findings} {next : List Reading → Findings} {marker : String}
    {quiet verbose : Bool} {report : List Reading → Report}
    (h : first.ending ≠ .notUtf8 →
      report first.stdin = (next first.stdin).shown marker quiet verbose) :
    (first.shown marker quiet verbose).andThen report =
      (first.andThen next).shown marker quiet verbose := by
  unfold Report.andThen andThen
  cases hending : first.ending with
  | notUtf8 => simp only [shown, hending]
  | status code =>
      have hreport := h (by rw [hending]; exact nofun)
      simp only [shown, hending, shownOutput_append, shownErrors_append] at hreport ⊢
      rw [hreport]

/-- The sources of findings that follow each other. -/
theorem sources_andThen {first : Findings} {next : List Reading → Findings} {source : Reader} :
    source ∈ (first.andThen next).sources ↔
      source ∈ first.sources ∨ first.ending ≠ .notUtf8 ∧ source ∈ (next first.stdin).sources := by
  unfold andThen
  cases first.ending with
  | notUtf8 => simp
  | status code => simp

/-- **Faithful findings**: the output is made of the traces of the parses, each with the trail
behind it if there is one, and the messages are whole lines. -/
structure Faithful (f : Findings) (start : Rule) : Prop where
  output : f.output = f.sources.flatMap (parseLines start)
  errors : ∀ text, .message text ∈ f.errors → WholeLines text

/-- Faithful findings may follow each other. -/
theorem Faithful.andThen {first : Findings} {next : List Reading → Findings} {start : Rule}
    (hfirst : first.Faithful start) (hnext : ∀ left, (next left).Faithful start) :
    (first.andThen next).Faithful start := by
  unfold Findings.andThen
  cases first.ending with
  | notUtf8 => exact hfirst
  | status code =>
      refine ⟨?_, ?_⟩
      · dsimp only
        rw [hfirst.output, (hnext first.stdin).output, List.flatMap_append]
      · intro text hmem
        rcases List.mem_append.1 hmem with hmem | hmem
        · exact hfirst.errors text hmem
        · exact (hnext first.stdin).errors text hmem

end Findings

/-- A message that is written is a text of whole lines if it is not empty. -/
theorem wholeLines_of_mem_messageLines {message text : String}
    (hmessage : message = "" ∨ WholeLines message) (h : .message text ∈ messageLines message) :
    WholeLines text := by
  unfold messageLines at h
  split at h
  · cases h
  · next hne =>
      cases List.mem_singleton.1 h
      exact hmessage.resolve_left hne

/-- What the end of a parse says on the error output. -/
theorem outcome_message (path : String) (stop : Option (Stop SourceFailure)) :
    (outcome path stop).2.2 = "" ∨ WholeLines (outcome path stop).2.2 := by
  cases stop with
  | none => exact .inl rfl
  | some stop =>
      cases stop with
      | syntaxError e => exact .inl rfl
      | tooDeep e => exact .inr ⟨_, rfl⟩
      | misused m => exact .inr ⟨_, rfl⟩
      | sourceFailed failure =>
          rw [outcome]
          rcases unusable_cases path failure with ⟨-, hfailure⟩ | ⟨message, hfailure, hmessage⟩
          · rw [hfailure]
            exact .inl rfl
          · rw [hfailure]
            exact .inr hmessage

/-- What the check of an open source finds. -/
def findingsOn (start : Rule) (path : String) (stdin : List Reading) (reader : Reader) : Findings :=
  let parse := recorded none reader start
  { sources := [reader]
    ending := (outcome path parse.1).1
    output := parseLines start reader
    errors := (notesOn (.limited none) start reader).map .note ++
      messageLines (outcome path parse.1).2.2
    stdin := leftOfInput stdin path parse.2.feed }

/-- **What the check of a file finds.** -/
def findings (start : Rule) (files : Files) (path : String) (stdin : List Reading) : Findings :=
  match openSource files stdin path with
  | .error failure =>
      { ending := .status 2
        errors := messageLines (notOpened path failure stdin).stderr
        stdin := stdin }
  | .ok reader => findingsOn start path stdin reader

/-- **What the check of several files finds.** -/
def findingsAll (start : Rule) (files : Files) : List String → List Reading → Findings
  | [], stdin => { ending := .status 0, stdin := stdin }
  | path :: paths, stdin =>
      (findings start files path stdin).andThen (findingsAll start files paths)

/-- **What a run of a check finds.** -/
def runFindings (start : Rule) (files : Files) (paths : List String) (stdin : List Reading) :
    Findings :=
  let found := findingsAll start files paths stdin
  { found with errors := .note (.running "check") :: found.errors }

section

variable {stack : CallStack} {request : CheckRequest} {verbose : Bool} {files : Files}
variable {stdin : List Reading}

/-- The check of a file shows what it finds, if its parse fits. -/
theorem checkFile_eq_shown {path : String}
    (hfits : ∀ source ∈ (findings request.start files path stdin).sources,
      Fits stack source request.start) :
    checkFile stack request verbose files path stdin =
      (findings request.start files path stdin).shown request.marker request.quiet verbose := by
  rw [checkFile_eq]
  unfold findings at hfits ⊢
  cases hopened : openSource files stdin path with
  | error failure =>
      have hnone : "" = shownOutput request.marker request.quiet [] := by
        cases request.quiet <;> rfl
      simp only [Findings.shown, shownErrors_messageLines, ← hnone]
      rfl
  | ok reader =>
      rw [hopened] at hfits
      have hparse : recordedOn stack reader request.start = recorded none reader request.start :=
        recordedOn_of_fits (hfits reader (List.mem_singleton_self reader))
      have hnotes : notesOn stack request.start reader =
          notesOn (.limited none) request.start reader := by
        rw [notesOn, notesOn, hparse]
        rfl
      simp only [reportOn, hparse, hnotes, findingsOn, parseLines, Findings.shown,
        shownOutput_append, shownErrors_append, shownErrors_messageLines,
        ← writtenNotes_eq_shownErrors, CheckRequest.style, text_eq_shownOutput,
        ← outcome_eq_shownOutput request.marker request.quiet path]

/-- **A check shows what it finds**, if its parses fit. -/
theorem checkFiles_eq_shown {paths : List String}
    (hfits : ∀ source ∈ (findingsAll request.start files paths stdin).sources,
      Fits stack source request.start) :
    checkFiles stack request verbose files paths stdin =
      (findingsAll request.start files paths stdin).shown request.marker request.quiet verbose := by
  induction paths generalizing stdin with
  | nil =>
      rw [checkFiles, findingsAll, Findings.shown]
      cases request.quiet <;> cases verbose <;> rfl
  | cons path paths ih =>
      rw [findingsAll] at hfits
      have hfirst : checkFile stack request verbose files path stdin =
          (findings request.start files path stdin).shown request.marker request.quiet verbose :=
        checkFile_eq_shown fun source hmem => hfits source (Findings.sources_andThen.2 (.inl hmem))
      rw [checkFiles, findingsAll, hfirst]
      refine Findings.shown_andThen fun hending => ih fun source hmem => ?_
      exact hfits source (Findings.sources_andThen.2 (.inr ⟨hending, hmem⟩))

end

/-- What the check of a file finds is faithful. -/
theorem faithful_findings (start : Rule) (files : Files) (path : String) (stdin : List Reading) :
    (findings start files path stdin).Faithful start := by
  unfold findings
  cases openSource files stdin path with
  | error failure =>
      refine ⟨rfl, ?_⟩
      intro text hmem
      exact wholeLines_of_mem_messageLines (.inr (wholeLines_notOpened path failure stdin)) hmem
  | ok reader =>
      refine ⟨(List.flatMap_singleton ..).symm, ?_⟩
      intro text hmem
      rcases List.mem_append.1 hmem with hmem | hmem
      · obtain ⟨note, -, hnote⟩ := List.mem_map.1 hmem
        cases hnote
      · exact wholeLines_of_mem_messageLines (outcome_message path _) hmem

/-- So is what the check of several files finds. -/
theorem faithful_findingsAll (start : Rule) (files : Files) (paths : List String)
    (stdin : List Reading) : (findingsAll start files paths stdin).Faithful start := by
  induction paths generalizing stdin with
  | nil => exact ⟨rfl, nofun⟩
  | cons path paths ih => exact (faithful_findings start files path stdin).andThen ih

/-- And what a run finds. -/
theorem faithful_runFindings (start : Rule) (files : Files) (paths : List String)
    (stdin : List Reading) : (runFindings start files paths stdin).Faithful start := by
  have hfound := faithful_findingsAll start files paths stdin
  refine ⟨hfound.output, ?_⟩
  intro text hmem
  rcases List.mem_cons.1 hmem with hnote | hmem
  · cases hnote
  · exact hfound.errors text hmem

/-! ### Presentation -/

/-- **Presentation changes nothing** but the room that is left.

* Of every source and start rule, parses that are not given up make the same with every sink and on
  every call stack: how they end, an error with all its entries, the tokens accepted, the draws and
  the lookahead.
* What is written in a style are the lines of events, each behind the marker and ended by a line
  feed, and without those of rules and tokens if the style says so. They are the events that are
  recorded without a limit, or a beginning of these where the parse is given up.
* Of all files and standard inputs, a check whose parses fit their call stack finds the same
  whatever marker it is given and whether it is quiet or verbose: one ending, and lines of which a
  report shows some. The marker stands in front of the lines of the traces and not of the trails, a
  quiet check leaves out the lines of rules and tokens, and one that is not verbose leaves out the
  notes. -/
theorem presentation_changes_nothing :
    (∀ {σ ε : Type} [Feed σ ε] (source : Metered σ ε) (start : Rule) (stack stack' : CallStack)
        (sink sink' : Sink),
      let parse := (Analyser.fresh source sink).parseOn stack start
      let parse' := (Analyser.fresh source sink').parseOn stack' start
      (∀ e, parse.1 ≠ some (.tooDeep e)) → (∀ e, parse'.1 ≠ some (.tooDeep e)) →
        SameParse parse parse') ∧
    (∀ {σ ε : Type} [Feed σ ε] (source : Metered σ ε) (start : Rule) (stack : CallStack)
        (style : TraceStyle),
      let parse := (Analyser.fresh source (.writing style)).parseOn stack start
      let all := (recorded none source start).2.sink.events
      ∃ events, events <+: all ∧ ((∀ e, parse.1 ≠ some (.tooDeep e)) → events = all) ∧
        parse.2.sink.written = writtenLines style.marker
          ((events.filter fun e => style.rules || e.isOutcome).flatMap Event.lines)) ∧
    ∀ (files : Files) (paths : List String) (start : Rule) (stdin : List Reading),
      (runFindings start files paths stdin).Faithful start ∧
        ∀ (marker : String) (quiet verbose : Bool) (extras : List String) (callStacks : CallStacks),
          (∀ source ∈ (runFindings start files paths stdin).sources,
            Fits (callStacks ⟨marker, !quiet⟩ verbose) source start) →
          run ⟨verbose, .check ⟨paths, marker, quiet, start⟩, extras⟩ files stdin callStacks =
            (runFindings start files paths stdin).shown marker quiet verbose := by
  refine ⟨?_, ?_, ?_⟩
  · intro σ ε _ source start stack stack' sink sink' parse parse' h h'
    exact (sameParse_recorded h).2.trans (sameParse_recorded h').2.symm
  · intro σ ε _ source start stack style parse all
    refine ⟨_, recordedOn_prefix stack source start, fun h => ?_, written_parseOn style⟩
    rw [recordedOn_of_fits (sameParse_recorded h).1]
  · intro files paths start stdin
    refine ⟨faithful_runFindings start files paths stdin, ?_⟩
    intro marker quiet verbose extras callStacks hfits
    have hnote : runningNote verbose "check" = shownErrors verbose [.note (.running "check")] :=
      writtenNotes_eq_shownErrors verbose [.running "check"]
    have herrors : runningNote verbose "check" ++
        shownErrors verbose (findingsAll start files paths stdin).errors =
        shownErrors verbose (runFindings start files paths stdin).errors := by
      rw [hnote, ← shownErrors_append]
      rfl
    have hfiles : checkFiles (callStacks ⟨marker, !quiet⟩ verbose) ⟨paths, marker, quiet, start⟩
        verbose files paths stdin =
          (findingsAll start files paths stdin).shown marker quiet verbose :=
      checkFiles_eq_shown hfits
    refine (run_eq_noted callStacks verbose extras files stdin _).trans ?_
    refine (congrArg (Report.noted · (runningNote verbose "check")) hfiles).trans ?_
    exact congrArg (fun stderr => { (findingsAll start files paths stdin).shown marker quiet verbose
      with stderr := stderr }) herrors

/-- A sign that no program starts with is found whatever is shown of it, and whatever the sink. -/
theorem presentation_changes_nothing_straySign :
    let files := Files.only "sign.scc" ['=']
    let found := runFindings .statementPart files ["sign.scc"] []
    let shown (marker : String) (quiet verbose : Bool) : Report :=
      run ⟨verbose, .check ⟨["sign.scc"], marker, quiet, .statementPart⟩, []⟩ files []
    let source : Metered TokenQueue Empty := ⟨⟨[⟨.equals, "=", 1⟩], 1⟩, #[]⟩
    shown "" false false = found.shown "" false false ∧
      shown "rgg" true true = found.shown "rgg" true true ∧
      SameParse
        ((Analyser.fresh source .discard).parseOn (.standard false false) .statementPart)
        ((Analyser.fresh source .recording).parseOn (.standard true true) .statementPart) := by
  intro files found shown source
  obtain ⟨hsinks, -, hruns⟩ := presentation_changes_nothing
  obtain ⟨-, hshown⟩ := hruns files ["sign.scc"] .statementPart []
  have hdraw : Feed.draw (Reader.ofBytes (Text.Utf8.encode ['=']) "sign.scc") =
      (.ok ⟨.equals, "=", 1⟩, _) := rfl
  have hfits (rules verbose : Bool) : ∀ reader ∈ found.sources,
      Fits (.standard rules verbose) reader .statementPart := by
    intro reader hmem
    rcases Findings.sources_andThen.1 hmem with hmem | ⟨-, hmem⟩
    · rw [show reader = Reader.ofBytes (Text.Utf8.encode ['=']) "sign.scc" from
        List.mem_singleton.1 hmem]
      exact fits_of_ne_begin hdraw (by decide) (by cases rules <;> rfl) rfl rfl
    · cases hmem
  have hended (stack : CallStack) (sink : Sink) (hroom : Fits stack source .statementPart) (e) :
      ((Analyser.fresh source sink).parseOn stack .statementPart).1 ≠ some (.tooDeep e) := by
    rw [(sameParse_recordedOn stack source sink .statementPart).stop, recordedOn_of_fits hroom]
    exact recorded_ne_tooDeep source .statementPart e
  have hsource : Feed.draw source = (.ok ⟨.equals, "=", 1⟩, _) := rfl
  refine ⟨hshown "" false false [] .standard (hfits true false),
    hshown "rgg" true true [] .standard (hfits false true), ?_⟩
  exact hsinks source .statementPart (.standard false false) (.standard true true) .discard
    .recording (hended _ _ (fits_of_ne_begin hsource (by decide) rfl rfl rfl))
    (hended _ _ (fits_of_ne_begin hsource (by decide) rfl rfl rfl))

/-- **What is shown takes room**: with so many parentheses open, there is none left for the note on
the end of the file. So a verbose check gives up a file that is rejected otherwise. -/
theorem run_check_verbose :
    let text := Layout.parentheses 490 [] .nil
    let ending (verbose : Bool) : Ending :=
      (run ⟨verbose, .check { files := ["deep.scc"], quiet := true, start := .factor }, []⟩
        (Files.only "deep.scc" text.text.toList) []).ending
    ending false = .status 1 ∧ ending true = .status 2 := by
  intro text ending
  obtain ⟨opening, closing, htokens, hlength, hkinds, hclosing⟩ :=
    Layout.exists_tokens_parentheses 490 .nil
  obtain rfl := List.map_eq_nil_iff.1 hclosing
  have hgives := text.gives_text "deep.scc"
  rw [htokens, List.append_nil] at hgives
  have hreturns : '\r' ∉ text.text.toList :=
    Layout.not_mem_text_parentheses (by decide) (by decide)
  clear_value text
  -- the tokens are drawn up to the innermost parenthesis, and the sentinel is behind it
  obtain ⟨first, more, rfl⟩ : ∃ first more, opening = first :: more :=
    List.exists_cons_of_length_pos (by omega)
  obtain ⟨rest, hfirst, hleads⟩ := hgives.exists_leads
  have hsplit := (List.dropLast_concat_getLast (List.cons_ne_nil first more)).symm
  obtain ⟨feed, hpassed, hend⟩ := hleads hsplit
  have hinner := hkinds _ (List.getLast_mem (List.cons_ne_nil first more))
  have hpassing : ∀ t ∈ (first :: more).dropLast, t.kind = .leftParenthesis := fun t ht =>
    hkinds t ((List.dropLast_prefix _).subset ht)
  have hcount : (first :: more).dropLast.length = 489 := by rw [List.length_dropLast, hlength]
  let request : CheckRequest := { quiet := true, start := .factor }
  have hending (verbose : Bool) := ending_run_only .standard verbose [] [] request
    (show "deep.scc" ≠ standardInput by decide) hreturns
  have hstack (verbose : Bool) : CallStacks.standard request.style verbose =
      .standard false verbose := rfl
  have hlist : ∀ call ∈ [Call.opening, .accepting, .drawing], Call.needs false true call ≤ 7 := by
    decide
  have hneeds : ∀ call, Call.needs false false call ≤ 9 := by
    intro call
    cases call <;> decide
  cases hend with
  | sentinel hdraw hlast =>
      obtain ⟨e, hrejected⟩ := recordedOn_parentheses_rejected (.standard false false) hfirst
        hpassed hpassing hinner hdraw hlast fun call count hle => by
          rw [hcount] at hle
          exact decide_eq_true (Nat.le_trans (Nat.add_le_add hle (hneeds call)) (by decide))
      obtain ⟨e', hgivenUp⟩ := recordedOn_parentheses_drawingEnd (.standard false true) hfirst
        hpassed hpassing hinner hdraw hlast
        (fun call hcall count hle => by
          rw [hcount] at hle
          exact decide_eq_true (Nat.le_trans (Nat.add_le_add hle (hlist call hcall)) (by decide)))
        (by rw [hcount]; rfl)
      exact ⟨(hending false).trans (by rw [hstack, hrejected]; rfl),
        (hending true).trans (by rw [hstack, hgivenUp]; rfl)⟩

end Command

end SccSharp
