import SccSharp.Command.Run

/-!
# The program

Reads the files that a request names and the standard input, carries the request out, and writes its
report. A file named `-` is the standard input. The exit status is 0 when every input is correct, 1
on a syntax error and 2 when an input cannot be used.

This is the only module that performs input and output; everything it calls is a function.
-/

namespace SccSharp.Command

/-- The files that a request names. -/
def Request.files : Request → List String
  | check request => request.files
  | lex file => [file]

/-- The text shown when help is asked for. -/
def helpText : String :=
  "usage: sccparse [-h] [-v] check [-h] [--prefix MARKER] [-q] [--start RULE] file [file ...]\n" ++
  "       sccparse [-h] [-v] lex [-h] file\n"

/-- The number of a system error, which some calls give negated. -/
def errorNumber (code : UInt32) : Nat :=
  min code.toNat (0 - code).toNat

/-- Why the system did not open a file: its number, and its words unless they are known. -/
def openFailureOf : IO.Error → OpenFailure
  | .noFileOrDirectory _ code reason | .permissionDenied _ code reason
  | .inappropriateType _ code reason | .invalidArgument _ code reason =>
      let known := [.missing, .forbidden, .notADirectory, .directory, .nameTooLong]
      (known.find? (OpenFailure.number · = errorNumber code)).getD ⟨errorNumber code, reason⟩
  | e => ⟨5, toString e⟩

/-- The bytes of a file, or why it cannot be opened. -/
def readFile (path : String) : IO (String × Except OpenFailure (List UInt8)) := do
  try
    let bytes ← IO.FS.readBinFile path
    pure (path, .ok bytes.toList)
  catch e =>
    pure (path, .error (openFailureOf e))

/-- The readings of the standard input, whose lines are ended by line feeds alone. -/
def readInput : IO (List Reading) := do
  let bytes ← (← IO.getStdin).readBinToEnd
  pure (Reading.ofBytes bytes.toList .lineFeed)

end SccSharp.Command

open SccSharp.Command in
/-- Carries out the request of the command line. -/
def main (args : List String) : IO UInt32 := do
  match Invocation.ofArguments args with
  | .error refusal =>
      match refusal.line? with
      | none =>
          IO.print helpText
          pure 0
      | some line =>
          IO.eprintln line
          pure 2
  | .ok invocation =>
      let paths := invocation.request.files
      let found ← (paths.filter (· != standardInput)).mapM readFile
      let stdin ← if paths.contains standardInput then readInput else pure []
      let report := run invocation (fun path => (found.lookup path).getD (.error .missing)) stdin
      IO.print report.stdout
      IO.eprint report.stderr
      match report.ending with
      | .status code => pure code.toUInt32
      | .notUtf8 =>
          IO.eprintln "sccparse: error: input is not UTF-8"
          pure 1
