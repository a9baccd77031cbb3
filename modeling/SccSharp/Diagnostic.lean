import SccSharp.Token

/-!
# Diagnostics

What is reported where source text cannot be cut into tokens: a message with its location, and
optionally a code, an explanation and suggestions.

## Main Definitions

* `Diagnostic` — a report, `Diagnostic.text` its printed form
* `Fault` — the two ways in which no token starts at a character
* `Fault.diagnostic` — the report of a fault at a location
* `Diagnostic.ofStray?` — the report of a stray text of any length
-/

namespace SccSharp

/-- A report on malformed source text. -/
structure Diagnostic where
  message : String
  location : Location
  code : Option String := none
  help : Option String := none
  suggestions : Option (List String) := none
  deriving DecidableEq, Repr

namespace Diagnostic

/-- The error codes with their categories. -/
def categories : List (String × String) :=
  [("L001", "Invalid character"), ("L002", "Unterminated string constant")]

/-- The category of the error code, if the code is a known one. -/
def category (d : Diagnostic) : Option String :=
  d.code.bind fun code => categories.lookup code

/-- The first word of a report: `error`, with the code in brackets unless it is empty. -/
def heading (d : Diagnostic) : String :=
  match d.code with
  | none => "error"
  | some code => if code = "" then "error" else "error[" ++ code ++ "]"

/-- The line of the explanation; an empty one is left out. -/
def helpLines (d : Diagnostic) : List String :=
  match d.help with
  | none => []
  | some help => if help = "" then [] else ["  help: " ++ help]

/-- The lines of the suggestions; an empty list is left out. -/
def suggestionLines (d : Diagnostic) : List String :=
  match d.suggestions.getD [] with
  | [] => []
  | suggestions => "  suggestions:" :: suggestions.map ("    - " ++ ·)

/-- The lines of a report. -/
def lines (d : Diagnostic) : List String :=
  (d.heading ++ ": " ++ d.message) :: ("  --> " ++ d.location.text) ::
    d.helpLines ++ d.suggestionLines

/-- The printed form of a report, every line ended by a line feed. -/
def text (d : Diagnostic) : String :=
  String.join (d.lines.map (· ++ "\n"))

end Diagnostic

/-! ### Stray characters -/

/-- Whether a text occurs inside another. -/
def occursIn (part : List Char) : List Char → Bool
  | [] => part.isEmpty
  | c :: rest => part.isPrefixOf (c :: rest) || occursIn part rest

/-- To occur inside a text is to be an infix of it. -/
theorem occursIn_iff (part text : List Char) : occursIn part text = true ↔ part <:+: text := by
  induction text with
  | nil => simp [occursIn]
  | cons c rest ih => simp [occursIn, ih, List.infix_cons_iff]

/-- **Suggested operators**: the first three that hold the text and something more. -/
def suggestedOperators (text : String) : List String :=
  ((Terminal.operators.map Prod.fst).filter fun spelling =>
    occursIn text.toList spelling.toList && spelling != text).take 3

/-- The explanation of a text that is shown as it is. -/
def printableHelp (text : String) : String :=
  "The character '" ++ text ++ "' is not valid in SCC# source code."

/-- The explanation of a character that cannot be shown: its code point, in capitals. -/
def unprintableHelp (c : Char) : String :=
  let digits := (Text.hexadecimal 4 c.toNat).map Char.toUpper
  "Non-printable character (Unicode: U+" ++ String.ofList digits ++ ") is not allowed."

/-- The explanation of a stray text. Only a single character has a code point to name. -/
def strayHelp? (text : String) : Option String :=
  if text.toList.all Text.isPrintable then some (printableHelp text)
  else match text.toList with
    | [c] => some (unprintableHelp c)
    | _ => none

/-- The report of a stray text with its explanation. -/
def Diagnostic.stray (text help : String) (location : Location) : Diagnostic where
  message := "Invalid character: '" ++ text ++ "'"
  location := location
  code := some "L001"
  help := some help
  suggestions := some ((suggestedOperators text).map ("Did you mean '" ++ · ++ "'?"))

/-- The report of a stray text; none where its explanation would have to name the code point of
several characters. -/
def Diagnostic.ofStray? (text : String) (location : Location) : Option Diagnostic :=
  (strayHelp? text).map fun help => .stray text help location

/-! ### Faults -/

/-- Why no token starts at a character. -/
inductive Fault where
  /-- A string constant is not closed on its line. -/
  | unterminatedString
  /-- The character starts no token. -/
  | strayCharacter (c : Char)
  deriving DecidableEq, Repr

/-- The report of a fault. -/
def Fault.diagnostic (fault : Fault) (location : Location) : Diagnostic :=
  match fault with
  | .unterminatedString =>
      { message := "Unterminated string constant"
        location := location
        code := some "L002"
        help := some "String constants must be closed with '\"' on the same line."
        suggestions := some ["Add a closing '\"'"] }
  | .strayCharacter c =>
      let text := String.singleton c
      .stray text (if Text.isPrintable c then printableHelp text else unprintableHelp c) location

/-- The two reports of a stray character agree. -/
theorem Diagnostic.ofStray?_singleton (c : Char) (location : Location) :
    Diagnostic.ofStray? (String.singleton c) location =
      some ((Fault.strayCharacter c).diagnostic location) := by
  simp only [ofStray?, strayHelp?, Fault.diagnostic, String.toList_singleton, List.all_cons,
    List.all_nil, Bool.and_true]
  split <;> rfl

end SccSharp
