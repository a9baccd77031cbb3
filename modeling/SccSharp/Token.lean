import SccSharp.Terminal
import SccSharp.Text.Quoted

/-!
# Tokens

A token is a terminal symbol together with the text it was read from and the line it stands on.

## Main Definitions

* `Token` — a terminal symbol with its text and line
* `Token.traceText` — the token in a trace
* `Token.description` — the token in a log
* `Location` — a column of a line of a file
-/

namespace SccSharp

/-- A terminal symbol, the text it was read from and the line it stands on. -/
structure Token where
  kind : Terminal
  text : String
  line : Int
  deriving DecidableEq, Repr

namespace Token

/-- The sentinel that ends a token stream. -/
def endOfInput (line : Int) : Token :=
  ⟨.eof, "", line⟩

/-- Whether a token is the sentinel. -/
def isEnd (t : Token) : Bool :=
  t.kind == .eof

/-- The token in a trace: its symbol, and its text where the symbol does not give it away. -/
def traceText (t : Token) : String :=
  if t.kind.carriesLexeme then t.kind.name ++ " '" ++ t.text ++ "'" else t.kind.name

/-- The token in a log: like the trace, with the text quoted. -/
def description (t : Token) : String :=
  if t.kind.carriesLexeme then t.kind.name ++ "(" ++ Text.quoted t.text ++ ")" else t.kind.name

end Token

/-- A column of a line of a file, both counted from one. -/
structure Location where
  file : String
  line : Int
  column : Int
  deriving DecidableEq, Repr

/-- A location as `file:line:column`. -/
def Location.text (l : Location) : String :=
  l.file ++ ":" ++ toString l.line ++ ":" ++ toString l.column

end SccSharp
