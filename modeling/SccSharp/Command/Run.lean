import SccSharp.Check
import SccSharp.Command.Arguments
import SccSharp.Command.Files
import SccSharp.Command.Note

/-!
# Running a request

A run is a function of its request, the files and the standard input. It gives an ending, what was
written to the two outputs, and what is left of the standard input.

`check` works on its files one after the other. The outputs of the files follow each other, the
standard input that one file leaves is what the next one gets, and the worst status counts. A parse
that comes to input that is not UTF-8 ends the whole run.

How much room a parse has depends on what is written about it, so a run is given a call stack for
every style of its trace, with and without notes.

## Main Definitions

* `CallStacks` — the call stacks of the parses
* `Report` — the result of a run
* `checkFile`, `checkFiles`, `lexFile` — the commands
* `run` — a whole request
-/

namespace SccSharp.Command

/-! ### Sources -/

/-- The file name that stands for the standard input. -/
def standardInput : String :=
  "-"

/-- A file name in messages and locations. -/
def shownName (path : String) : String :=
  if path = standardInput then "<stdin>" else path

/-- The reader over a file or over what is left of the standard input. -/
def openSource (files : Files) (stdin : List Reading) (path : String) :
    Except OpenFailure Reader :=
  if path = standardInput then .ok { file := shownName path, script := stdin }
  else (files path).map (Reader.ofBytes · (shownName path))

/-- What a reader leaves of the standard input. -/
def leftOfInput (stdin : List Reading) (path : String) (reader : Reader) : List Reading :=
  if path = standardInput then reader.script else stdin

/-! ### Reports -/

/-- How a run ends. -/
inductive Ending where
  /-- With a status: zero for success, one for a syntax error, two for unusable input. -/
  | status (code : Nat)
  /-- Because a read of some input was not UTF-8. -/
  | notUtf8
  deriving DecidableEq, Repr

/-- The worse of two endings. -/
def Ending.worse : Ending → Ending → Ending
  | status a, status b => status (max a b)
  | _, _ => notUtf8

/-- **The result of a run**: its ending, both outputs, and the standard input it leaves. -/
structure Report where
  ending : Ending
  stdout : String := ""
  stderr : String := ""
  stdin : List Reading
  deriving DecidableEq, Repr

/-- The ending and the message for a source that gives no token. -/
def unusable (path : String) : SourceFailure → Ending × String
  | .malformed report => (.status 2, report.text)
  | .unreadable (.system text) => (.status 2, "error: cannot read " ++ path ++ ": " ++ text ++ "\n")
  | .unreadable .notUtf8 => (.notUtf8, "")

/-- The report on a file that cannot be opened. -/
def notOpened (path : String) (failure : OpenFailure) (stdin : List Reading) : Report where
  ending := .status 2
  stderr := "error: cannot read " ++ path ++ ": " ++ failure.text path ++ "\n"
  stdin := stdin

/-- The note that a reader met the end of its source since it was `before`. -/
def endNotes (before after : Reader) : List Note :=
  if after.ended && !before.ended then [.sourceEnded after.file after.place.linesRead] else []

/-! ### Checking -/

/-- How the trace of a check is written. -/
def CheckRequest.style (request : CheckRequest) : TraceStyle :=
  ⟨request.marker, !request.quiet⟩

/-- The note on the end of a parse. -/
def outcomeNotes (consumed : Nat) : Option (Stop SourceFailure) → List Note
  | none => [.accepted consumed]
  | some (.syntaxError e) => [.failed consumed e.message]
  | some (.tooDeep _) => [.gaveUp consumed]
  | some _ => []

/-- The ending of a parse, and what is written about it on the two outputs. -/
def outcome (path : String) : Option (Stop SourceFailure) → Ending × String × String
  | none => (.status 0, "", "")
  | some (.syntaxError e) => (.status 1, "Compilation Exception\n" ++ e.trailText ++ "\n", "")
  | some (.tooDeep e) => (.status 2, "", "error: " ++ shownName path ++ ": " ++ e.message ++ "\n")
  | some (.sourceFailed failure) =>
      let (ending, message) := unusable path failure
      (ending, "", message)
  | some (.misused m) => (.status 2, "", m.message ++ "\n")

/-- The note on the end of a source that a parse has met. A draw that is given up leaves none. -/
def drawnNotes (first last : Cursor Reader) : List Note :=
  if last.lookahead.isEnd then endNotes first.feed last.feed else []

/-- The notes on a check, in order, and its analyser at the end. -/
def checkReader (stack : CallStack) (start : Rule) (style : TraceStyle) (reader : Reader) :
    Option (Stop SourceFailure) × List Note × Analyser Reader :=
  match (Analyser.fresh reader (.writing style)).start with
  | (.error stop, a) => (some stop, endNotes reader a.feed, a)
  | (.ok first, _) =>
      let (stop, last) := first.parseOn stack start
      let notes := endNotes reader first.feed ++ .parsing start first.lookahead ::
        drawnNotes first last ++ outcomeNotes last.consumed stop
      (stop, notes, .started last)

/-- Checks one file. -/
def checkFile (stack : CallStack) (request : CheckRequest) (verbose : Bool) (files : Files)
    (path : String) (stdin : List Reading) : Report :=
  match openSource files stdin path with
  | .error failure => notOpened path failure stdin
  | .ok reader =>
      let (stop, notes, a) := checkReader stack request.start request.style reader
      let (ending, out, err) := outcome path stop
      { ending := ending
        stdout := a.sink.written ++ out
        stderr := writtenNotes verbose notes ++ err
        stdin := leftOfInput stdin path a.feed }

/-- A report followed by what is run on the standard input it leaves. Nothing follows where the
input is not UTF-8. -/
def Report.andThen (first : Report) (next : List Reading → Report) : Report :=
  match first.ending with
  | .notUtf8 => first
  | .status _ =>
      let second := next first.stdin
      { ending := first.ending.worse second.ending
        stdout := first.stdout ++ second.stdout
        stderr := first.stderr ++ second.stderr
        stdin := second.stdin }

/-- Checks files one after the other. -/
def checkFiles (stack : CallStack) (request : CheckRequest) (verbose : Bool) (files : Files) :
    List String → List Reading → Report
  | [], stdin => { ending := .status 0, stdin := stdin }
  | path :: paths, stdin =>
      (checkFile stack request verbose files path stdin).andThen
        (checkFiles stack request verbose files paths)

/-! ### Listing tokens -/

/-- The line of a token. -/
def tokenLine (t : Token) : String :=
  toString t.line ++ ": " ++ t.traceText ++ "\n"

/-- Lists the tokens of a file. -/
def lexFile (verbose : Bool) (files : Files) (path : String) (stdin : List Reading) : Report :=
  match openSource files stdin path with
  | .error failure => notOpened path failure stdin
  | .ok reader =>
      let (tokens, failure?, last) := Feed.drain reader
      let (ending, message) :=
        match failure? with
        | none => (Ending.status 0, "")
        | some failure => unusable path failure
      { ending := ending
        stdout := String.join (tokens.toList.map tokenLine)
        stderr := writtenNotes verbose (endNotes reader last) ++ message
        stdin := leftOfInput stdin path last }

/-! ### Requests -/

/-- **The call stacks of the parses**, by the style of their traces and whether notes are
written. -/
abbrev CallStacks : Type :=
  TraceStyle → Bool → CallStack

/-- The call stacks of the program. -/
def CallStacks.standard : CallStacks :=
  fun style verbose => .standard style.rules verbose

/-- The report on a request, without the note that it is carried out. -/
def runRequest (callStacks : CallStacks) (verbose : Bool) (files : Files) (stdin : List Reading) :
    Request → Report
  | .check request =>
      checkFiles (callStacks request.style verbose) request verbose files request.files stdin
  | .lex file => lexFile verbose files file stdin

/-- **Carries out an invocation.** -/
def run (invocation : Invocation) (files : Files) (stdin : List Reading)
    (callStacks : CallStacks := .standard) : Report :=
  let report := runRequest callStacks invocation.verbose files stdin invocation.request
  { report with
    stderr := writtenNotes invocation.verbose [.running invocation.request.name] ++ report.stderr }

end SccSharp.Command
