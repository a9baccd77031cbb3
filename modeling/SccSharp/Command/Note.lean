import SccSharp.SyntaxError

/-!
# Notes

What a verbose run says about itself, one line a note, each with the name of the part of the program
it is about.

## Main Definitions

* `Note` — a remark on a run, `Note.line` its line
-/

namespace SccSharp.Command

/-- A remark on a run. -/
inductive Note where
  /-- A command is carried out. -/
  | running (command : String)
  /-- A source gives no more lines. -/
  | sourceEnded (file : String) (linesRead : Nat)
  /-- A parse has its first token. -/
  | parsing (start : Rule) (first : Token)
  /-- A parse met a syntax error. -/
  | failed (consumed : Nat) (message : String)
  /-- A parse was given up. -/
  | gaveUp (consumed : Nat)
  /-- A parse succeeded. -/
  | accepted (consumed : Nat)
  deriving DecidableEq, Repr

namespace Note

/-- The part of the program a note is about. -/
def part : Note → String
  | running _ => "sccparse.cli"
  | sourceEnded .. => "sccparse.lexer.lexer"
  | _ => "sccparse.parser.parser"

/-- A note in words. -/
def text : Note → String
  | running command => "running " ++ command
  | sourceEnded file linesRead =>
      "reached end of " ++ file ++ " after " ++ toString linesRead ++ " line(s)"
  | parsing start first =>
      "parsing from " ++ start.label ++ ", first token " ++ first.description ++ " on line " ++
        toString first.line
  | failed consumed message =>
      "syntax error after " ++ toString consumed ++ " token(s): " ++ message
  | gaveUp consumed => "nesting limit reached after " ++ toString consumed ++ " token(s)"
  | accepted consumed => "accepted " ++ toString consumed ++ " token(s)"

/-- The line of a note. -/
def line (n : Note) : String :=
  "DEBUG " ++ n.part ++ ": " ++ n.text ++ "\n"

end Note

/-- The lines of some notes; none unless the run is verbose. -/
def writtenNotes (verbose : Bool) (notes : List Note) : String :=
  if verbose then String.join (notes.map Note.line) else ""

end SccSharp.Command
