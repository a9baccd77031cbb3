import SccSharp.Command.Option

/-!
# Requests

What the arguments ask for. Options and words may come in any order. The words of a command are
taken together where they first appear; words that come later, and options that the command does
not know, are left over and refused at the end. The words of the main program begin with the name
of a command, and everything behind the name belongs to that command.

Options take effect one by one as they are read, so that asking for help wins over any complaint
that would come later. Options run together are all read first.

## Main Definitions

* `Interpreter` — the effect of options and words on settings
* `Interpreter.gather` — reads pieces into settings
* `Invocation.ofArguments` — the request of a list of arguments
-/

namespace SccSharp.Command

/-! ### Taking options and words -/

/-- What an option brings: the options to set, each with its value, and whether the next word was
used up. -/
structure Spent where
  flags : List (Flag × Option String)
  usesNext : Bool := false
  deriving DecidableEq, Repr

/-- **Options run together** behind one dash: an option and the letters after it. All letters are
read before any option takes effect. The first letter that names no option of the command, and all
after it, count as a value for the option in front of it, which takes none. -/
def Usage.cluster (u : Usage) (f : Flag) : List Char → Except Complaint (List Flag)
  | [] => .ok [f]
  | c :: rest =>
      match u.flag? (String.ofList ['-', c]) with
      | none => .error (.uselessValue f (String.ofList (c :: rest)))
      | some g => (u.cluster g rest).map (f :: ·)

/-- What an option brings, given the name it goes by, the text attached to it, and the next word. An
option that takes no value takes a text only as further letters, and only behind a short name. -/
def Usage.spend (u : Usage) (f : Flag) (name : String) (attached next : Option String) :
    Except Complaint Spent :=
  match attached with
  | none =>
      if f.takesValue then
        match next with
        | some word => .ok ⟨[(f, some word)], true⟩
        | none => .error (.missingValue f)
      else .ok ⟨[(f, none)], false⟩
  | some text =>
      if f.takesValue then .ok ⟨[(f, some text)], false⟩
      else if isLong name.toList || text.isEmpty then .error (.uselessValue f text)
      else (u.cluster f text.toList).map fun flags => ⟨flags.map fun g => (g, none), false⟩

/-- The words of a command at the front of some pieces, and the pieces after them. A separator in
front of the words belongs to them; only the main program sees it. -/
def Operands.take? (operands : Operands) (pieces : List Piece) :
    Option (List String × List Piece) :=
  let words := if pieces.head? = some .separator then pieces.tail else pieces
  match words with
  | .word first :: rest =>
      match operands with
      | .command => some (pieces.map Piece.text, [])
      | .file => some ([first], if rest.head? = some .separator then rest.tail else rest)
      | .files =>
          some (first :: (rest.takeWhile Piece.isPlain).filterMap Piece.word?,
            rest.dropWhile Piece.isPlain)
  | _ => none

/-- Taking words leaves fewer pieces. -/
theorem Operands.take?_length_lt {operands : Operands} {pieces rest : List Piece}
    {words : List String} (h : operands.take? pieces = some (words, rest)) :
    rest.length < pieces.length := by
  have dropped (l : List Piece) : (l.dropWhile Piece.isPlain).length ≤ l.length :=
    (List.dropWhile_suffix _).length_le
  unfold take? at h
  dsimp only at h
  split at h
  · next first more heq =>
      have hlen : more.length < pieces.length := by
        have := congrArg List.length heq
        split at this <;> simp only [List.length_cons, List.length_tail] at this <;> omega
      cases operands <;> cases h
      · exact Nat.lt_of_le_of_lt (Nat.zero_le _) hlen
      · split
        · rw [List.length_tail]
          omega
        · exact hlen
      · exact Nat.lt_of_le_of_lt (dropped more) hlen
  · cases h

/-! ### Reading pieces -/

/-- **What options and words do** to the settings of a command. -/
structure Interpreter (α : Type) where
  usage : Usage
  setFlag : α → Flag → Option String → Except Refusal α
  setWords : α → List String → Except Refusal α

/-- Settings in the making: whether the words have been taken, and what is left over. -/
structure Gathered (α : Type) where
  settings : α
  filled : Bool := false
  extras : List String := []

namespace Interpreter

variable {α : Type}

/-- Sets options in order. -/
def setFlags (i : Interpreter α) (settings : α) (flags : List (Flag × Option String)) :
    Except Refusal α :=
  flags.foldlM (fun settings (f, value) => i.setFlag settings f value) settings

/-- Reads pieces into settings. -/
def gather (i : Interpreter α) (g : Gathered α) (pieces : List Piece) :
    Except Refusal (Gathered α) :=
  match pieces with
  | [] => .ok g
  | .unknown text :: rest => i.gather { g with extras := g.extras ++ [text] } rest
  | .option _ f name attached :: rest =>
      match i.usage.spend f name attached (rest.head?.bind Piece.word?) with
      | .error complaint => .error (.usage i.usage.program complaint)
      | .ok spent =>
          match i.setFlags g.settings spent.flags with
          | .error refusal => .error refusal
          | .ok settings =>
              i.gather { g with settings := settings }
                (rest.drop (if spent.usesNext then 1 else 0))
  | piece :: rest =>
      if g.filled then i.gather { g with extras := g.extras ++ [piece.text] } rest
      else
        match _taken : i.usage.operands.take? (piece :: rest) with
        | none => i.gather { g with extras := g.extras ++ [piece.text] } rest
        | some (words, after) =>
            match i.setWords g.settings words with
            | .error refusal => .error refusal
            | .ok settings => i.gather { g with settings := settings, filled := true } after
termination_by pieces.length
decreasing_by
  · exact Nat.lt_succ_self _
  · simp only [List.length_drop, List.length_cons]
    omega
  · exact Nat.lt_succ_self _
  · exact Nat.lt_succ_self _
  · exact Operands.take?_length_lt _taken

/-- The settings of a list of arguments, and the arguments left over. -/
def read (i : Interpreter α) (settings : α) (args : List String) :
    Except Refusal (α × List String) :=
  match i.usage.pieces args with
  | .error complaint => .error (.usage i.usage.program complaint)
  | .ok pieces =>
      match i.gather { settings := settings } pieces with
      | .error refusal => .error refusal
      | .ok g =>
          if g.filled then .ok (g.settings, g.extras)
          else .error (.usage i.usage.program (.missingOperands i.usage.operands))

end Interpreter

/-! ### The commands -/

/-- What `check` is asked to do. -/
structure CheckRequest where
  files : List String := []
  marker : String := ""
  quiet : Bool := false
  start : Rule := .statementPart
  deriving DecidableEq, Repr

/-- What a command is asked to do. -/
inductive Request where
  | check (request : CheckRequest)
  | lex (file : String)
  deriving DecidableEq, Repr

/-- The name of the command of a request. -/
def Request.name : Request → String
  | check _ => "check"
  | lex _ => "lex"

/-- The name of the program. -/
def programName : String :=
  "sccparse"

/-- The options and words of `check`. -/
def checkInterpreter : Interpreter CheckRequest where
  usage := ⟨programName ++ " check", [.help, .marker, .quiet, .start], .files⟩
  setFlag request f value :=
    match f, value with
    | .help, _ => .error .help
    | .quiet, _ => .ok { request with quiet := true }
    | .marker, some value => .ok { request with marker := value }
    | .start, some value =>
        match Rule.ofKey? value with
        | some r => .ok { request with start := r }
        | none =>
            .error (.usage (programName ++ " check")
              (.invalidChoice Flag.start.title value (Rule.all.map Rule.key)))
    | _, _ => .ok request
  setWords request words := .ok { request with files := words }

/-- The options and words of `lex`. -/
def lexInterpreter : Interpreter String where
  usage := ⟨programName ++ " lex", [.help], .file⟩
  setFlag file f _ := if f = .help then .error .help else .ok file
  setWords _ words := .ok (words.headD "")

/-- What the whole program is asked to do; `extras` are the arguments a command leaves over. -/
structure Invocation where
  verbose : Bool := false
  request : Request := .lex ""
  extras : List String := []
  deriving DecidableEq, Repr

namespace Invocation

/-- The request of a command and its arguments. -/
def setCommand (invocation : Invocation) (words : List String) : Except Refusal Invocation :=
  match words with
  | "check" :: args =>
      (checkInterpreter.read {} args).map fun (request, extras) =>
        { invocation with request := .check request, extras := extras }
  | "lex" :: args =>
      (lexInterpreter.read "" args).map fun (file, extras) =>
        { invocation with request := .lex file, extras := extras }
  | _ =>
      .error (.usage programName
        (.invalidChoice Operands.command.title (words.headD "") ["check", "lex"]))

/-- The options and words of the program. -/
def interpreter : Interpreter Invocation where
  usage := ⟨programName, [.help, .verbose], .command⟩
  setFlag invocation f _ :=
    match f with
    | .help => .error .help
    | .verbose => .ok { invocation with verbose := true }
    | _ => .ok invocation
  setWords := setCommand

/-- **The request of a list of arguments.** What is left over by the program and by the command is
refused together. -/
def ofArguments (args : List String) : Except Refusal Invocation :=
  match interpreter.read {} args with
  | .error refusal => .error refusal
  | .ok (invocation, extras) =>
      match extras ++ invocation.extras with
      | [] => .ok invocation
      | leftOver => .error (.usage programName (.unrecognized leftOver))

end Invocation

end SccSharp.Command
