import SccSharp.Rule
import SccSharp.Text.Digit
import SccSharp.Text.Quoted

/-!
# Options and arguments

What the arguments of a command look like before they mean anything. Each argument is a word, the
separator `--`, or an option; after the separator everything is a word.

A long option may be shortened as long as only one option of the command starts that way, and takes
its value behind an equals sign or as the next word. One-letter options may be run together behind
one dash, and an equals sign behind the first of them changes nothing. What starts with a dash is
nevertheless a word if it is a dash alone or a negative number, or if it holds a space and is no
option.

## Main Definitions

* `Flag` — the options, with their names
* `Operands` — the words a command asks for
* `Usage` — the options and words of one command
* `Complaint` — why arguments are refused
* `Piece`, `Usage.classify` — an argument and what it is
-/

namespace SccSharp.Command

/-! ### What a command takes -/

/-- An option of some command. -/
inductive Flag where
  | help
  | verbose
  | marker
  | quiet
  | start
  deriving DecidableEq, Repr

namespace Flag

/-- The names of an option, the short one first. -/
def names : Flag → List String
  | help => ["-h", "--help"]
  | verbose => ["-v", "--verbose"]
  | marker => ["--prefix"]
  | quiet => ["-q", "--quiet"]
  | start => ["--start"]

/-- Whether an option takes a value. None with a one-letter name does. -/
def takesValue : Flag → Bool
  | marker | start => true
  | _ => false

/-- An option in an error text. -/
def title (f : Flag) : String :=
  "/".intercalate f.names

end Flag

/-- The words that a command asks for. -/
inductive Operands where
  /-- The name of a command and all that belongs to it. -/
  | command
  /-- One file. -/
  | file
  /-- One file or more. -/
  | files
  deriving DecidableEq, Repr

/-- The words of a command in an error text. -/
def Operands.title : Operands → String
  | command => "cmd"
  | file | files => "file"

/-- **The arguments of a command**: the program it belongs to, its options and its words. -/
structure Usage where
  program : String
  flags : List Flag
  operands : Operands
  deriving DecidableEq, Repr

/-- The names of the options of a command, with the options. -/
def Usage.names (u : Usage) : List (String × Flag) :=
  u.flags.flatMap fun f => f.names.map fun name => (name, f)

/-- The option of a name. -/
def Usage.flag? (u : Usage) (name : String) : Option Flag :=
  u.names.lookup name

/-! ### Refusals -/

/-- Why arguments are refused. -/
inductive Complaint where
  /-- A shortened option could be several. -/
  | ambiguous (written : String) (candidates : List String)
  /-- An option that takes no value is given one. -/
  | uselessValue (f : Flag) (value : String)
  /-- An option lacks its value. -/
  | missingValue (f : Flag)
  /-- A value is none of those allowed. -/
  | invalidChoice (title value : String) (choices : List String)
  /-- A command lacks its words. -/
  | missingOperands (operands : Operands)
  /-- Nothing asks for these arguments. -/
  | unrecognized (arguments : List String)
  deriving DecidableEq, Repr

/-- A complaint in words. -/
def Complaint.text : Complaint → String
  | ambiguous written candidates =>
      "ambiguous option: " ++ written ++ " could match " ++ ", ".intercalate candidates
  | uselessValue f value =>
      "argument " ++ f.title ++ ": ignored explicit argument " ++ Text.quoted value
  | missingValue f => "argument " ++ f.title ++ ": expected one argument"
  | invalidChoice title value choices =>
      "argument " ++ title ++ ": invalid choice: " ++ Text.quoted value ++ " (choose from " ++
        ", ".intercalate (choices.map Text.quoted) ++ ")"
  | missingOperands operands => "the following arguments are required: " ++ operands.title
  | unrecognized arguments => "unrecognized arguments: " ++ " ".intercalate arguments

/-- How reading arguments ends when it gives no request. -/
inductive Refusal where
  /-- Help is asked for. -/
  | help
  /-- A program complains. -/
  | usage (program : String) (complaint : Complaint)
  deriving DecidableEq, Repr

/-- A refusal as the last line of an error output. -/
def Refusal.line? : Refusal → Option String
  | help => none
  | usage program complaint => some (program ++ ": error: " ++ complaint.text)

/-! ### Pieces -/

/-- What an argument is. -/
inductive Piece where
  | word (text : String)
  | separator
  /-- An option as it is written, its full name, and the text attached to it: what stands behind an
  equals sign, or behind the letter of a short name. -/
  | option (text : String) (f : Flag) (name : String) (attached : Option String)
  /-- Something like an option that the command does not know. -/
  | unknown (text : String)
  deriving DecidableEq, Repr

namespace Piece

/-- The argument itself. -/
def text : Piece → String
  | word text | unknown text | option text .. => text
  | separator => "--"

/-- The full name of an option. -/
def name? : Piece → Option String
  | option _ _ name _ => some name
  | _ => none

/-- The text of a word. -/
def word? : Piece → Option String
  | word text => some text
  | _ => none

/-- Whether an argument is a word or the separator. -/
def isPlain : Piece → Bool
  | word _ | separator => true
  | _ => false

end Piece

/-- Whether an option name, or an argument, is a long one: it starts with two dashes. -/
def isLong (name : List Char) : Bool :=
  ['-', '-'].isPrefixOf name

/-- An argument cut at its first equals sign, and the text behind the sign. -/
def cutAtEquals (arg : List Char) : List Char × Option String :=
  match arg.dropWhile (· != '=') with
  | [] => (arg, none)
  | _ :: value => (arg.takeWhile (· != '='), some (String.ofList value))

/-- What an option name and its option make of an argument that may be short for it: a long argument
begins the name, and any other begins with it. -/
def candidate? (arg : List Char) (name : String) (f : Flag) : Option Piece :=
  let written := String.ofList arg
  if isLong arg then
    let (start, attached) := cutAtEquals arg
    if start.isPrefixOf name.toList then some (.option written f name attached) else none
  else if name.toList = arg.take 2 then
    some (.option written f name (some (String.ofList (arg.drop 2))))
  else none

/-- The options that an argument may be short for, each with what it carries. -/
def Usage.candidates (u : Usage) (arg : List Char) : List Piece :=
  u.names.filterMap fun (name, f) => candidate? arg name f

/-- Whether a text is a number: digits, or digits around a point with some behind it. A line feed
at its end is overlooked. -/
def isNumber (text : List Char) : Bool :=
  let text := if text.getLast? = some '\n' then text.dropLast else text
  match text.dropWhile Text.isDigit with
  | [] => !text.isEmpty
  | '.' :: fraction => !fraction.isEmpty && fraction.all Text.isDigit
  | _ => false

/-- The option that an argument names in full, with the text behind its equals sign. -/
def Usage.named? (u : Usage) (arg : String) : Option Piece :=
  match u.flag? arg with
  | some f => some (.option arg f arg none)
  | none =>
      let (name, attached) := cutAtEquals arg.toList
      (u.flag? (String.ofList name)).map fun f => .option arg f (String.ofList name) attached

/-- What an argument in front of the separator is. -/
def Usage.classify (u : Usage) (arg : String) : Except Complaint Piece :=
  match arg.toList with
  | '-' :: c :: rest =>
      match u.named? arg with
      | some piece => .ok piece
      | none =>
          match u.candidates ('-' :: c :: rest) with
          | [piece] => .ok piece
          | [] =>
              if isNumber (c :: rest) || (c :: rest).contains ' ' then .ok (.word arg)
              else .ok (.unknown arg)
          | several => .error (.ambiguous arg (several.filterMap Piece.name?))
  | _ => .ok (.word arg)

/-- What the arguments of a command are. -/
def Usage.pieces (u : Usage) : List String → Except Complaint (List Piece)
  | [] => .ok []
  | arg :: args =>
      if arg = "--" then .ok (.separator :: args.map .word)
      else
        match u.classify arg with
        | .error complaint => .error complaint
        | .ok piece => (u.pieces args).map (piece :: ·)

end SccSharp.Command
