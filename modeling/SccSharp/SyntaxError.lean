import SccSharp.Grammar
import SccSharp.Token

/-!
# Syntax errors

A syntax error arises at one token and is reported with the rules that were open there, each with
the line it was opened on.

## Main Definitions

* `Expectation` — what was required where the error arose
* `SyntaxError` — the error, `SyntaxError.frames` its chain from the origin outwards
* `SyntaxError.trail` — the chain from the outermost rule inwards, one indented line a frame
* `DepthError` — a parse given up because too many rules were open
* `Verdict` — what became of a parse
-/

namespace SccSharp

/-! ### Expectations -/

/-- What was required at a token. -/
inductive Expectation where
  /-- One terminal. -/
  | terminal (t : Terminal) (line : Int)
  /-- One of the alternatives of a choice. -/
  | choice (c : Choice) (line : Int)
  /-- What a caller says. -/
  | stated (text : String)
  deriving DecidableEq, Repr

/-- An expectation in words. -/
def Expectation.text : Expectation → String
  | terminal t line => "'" ++ t.name ++ "' at line " ++ toString line
  | choice c line => c.alternatives ++ " at line " ++ toString line
  | stated text => text

/-! ### Error chains -/

/-- One entry of an error chain. -/
structure Frame where
  context : String
  line : Int
  message : String
  deriving DecidableEq, Repr

/-- A rule that is open, with the line it was opened on. -/
structure OpenRule where
  rule : Rule
  line : Int
  deriving DecidableEq, Repr

/-- The entry of an open rule. -/
def OpenRule.frame (o : OpenRule) : Frame :=
  ⟨o.rule.label, o.line, "'" ++ o.rule.label ++ "' at line " ++ toString o.line ++ "."⟩

/-- **A syntax error**: what was expected, the token found instead, where the chain starts and the
entries of the rules around it, innermost first. -/
structure SyntaxError where
  expected : Expectation
  found : Token
  origin : Frame
  enclosing : List Frame := []
  deriving DecidableEq, Repr

namespace SyntaxError

/-- The message of an expectation that a token does not meet. -/
def messageOf (expected : Expectation) (found : Token) : String :=
  "expected " ++ expected.text ++ ", found: '" ++ found.text ++ "'"

/-- The entry of the place where an error arises. -/
def originOf (expected : Expectation) (found : Token) : Frame :=
  ⟨expected.text, found.line, messageOf expected found⟩

/-- An error at its origin, with no rule around it yet. -/
def raised (expected : Expectation) (found : Token) : SyntaxError :=
  ⟨expected, found, originOf expected found, []⟩

/-- An error with a given chain; an empty chain stands for the origin alone. -/
def ofFrames (expected : Expectation) (found : Token) : List Frame → SyntaxError
  | [] => raised expected found
  | origin :: enclosing => ⟨expected, found, origin, enclosing⟩

/-- The message of an error. -/
def message (e : SyntaxError) : String :=
  messageOf e.expected e.found

/-- The line of the token found. -/
def line (e : SyntaxError) : Int :=
  e.found.line

/-- The chain, from the origin outwards. -/
def frames (e : SyntaxError) : List Frame :=
  e.origin :: e.enclosing

/-- The names of the rules around the error, innermost first. -/
def rules (e : SyntaxError) : List String :=
  e.enclosing.map Frame.context

/-- The error seen from one more rule around it. -/
def within (e : SyntaxError) (o : OpenRule) : SyntaxError :=
  { e with enclosing := e.enclosing ++ [o.frame] }

/-- The error seen from all rules around it, innermost first. -/
def withinAll (e : SyntaxError) (open_ : List OpenRule) : SyntaxError :=
  { e with enclosing := e.enclosing ++ open_.map OpenRule.frame }

/-- Going outwards rule by rule is going outwards at once. -/
theorem foldl_within (e : SyntaxError) (open_ : List OpenRule) :
    open_.foldl within e = e.withinAll open_ := by
  induction open_ generalizing e with
  | nil => simp [withinAll]
  | cons o rest ih => simp [ih, within, withinAll]

/-- The chain from the outermost rule inwards, each line indented under the one before it. -/
def trail (e : SyntaxError) (indent : String := "  ") : List String :=
  e.frames.reverse.mapIdx fun depth frame =>
    String.join (List.replicate depth indent) ++ frame.message

/-- The chain as one text. -/
def trailText (e : SyntaxError) (indent : String := "  ") : String :=
  "\n".intercalate (e.trail indent)

end SyntaxError

/-! ### Depth errors -/

/-- **A parse given up** because too many rules were open: the lookahead and the number of tokens
accepted then. The text checked may well be correct. -/
structure DepthError where
  token : Token
  consumed : Int
  deriving DecidableEq, Repr

/-- The message of a depth error. -/
def DepthError.message (e : DepthError) : String :=
  "input nests too deeply to check (line " ++ toString e.token.line ++ ", after " ++
    toString e.consumed ++ " token(s))"

/-! ### Verdicts -/

/-- What became of a parse that ran to its end: no error, or the one that ended it. -/
structure Verdict where
  error? : Option SyntaxError := none
  deriving DecidableEq, Repr

/-- Whether the parse found no error. -/
def Verdict.succeeded (v : Verdict) : Bool :=
  v.error?.isNone

/-- The chain of the error, empty without one. -/
def Verdict.frames (v : Verdict) : List Frame :=
  match v.error? with
  | some e => e.frames
  | none => []

end SccSharp
