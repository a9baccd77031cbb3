/-!
# Terminal symbols

The alphabet of SCC#: literals, keywords, operators, punctuation and the sentinel that ends every
token stream.

## Main Definitions

* `Terminal` — the terminal symbols, each with the `name` shown in traces and error texts
* `Terminal.keywords`, `Terminal.operators` — the symbols with one spelling, by spelling
* `Terminal.ofName?` — the symbol of a name
-/

namespace SccSharp

/-- A terminal symbol of the grammar. -/
inductive Terminal where
  | eof
  | identifier
  | numberConstant
  | stringConstant
  | beginWord
  | endWord
  | ifWord
  | thenWord
  | elseWord
  | whileWord
  | loopWord
  | doWord
  | untilWord
  | callWord
  | plus
  | minus
  | times
  | divide
  | greaterThan
  | greaterEqual
  | equals
  | notEqual
  | lessThan
  | lessEqual
  | becomes
  | leftParenthesis
  | rightParenthesis
  | comma
  | semicolon
  deriving DecidableEq, Repr

namespace Terminal

/-- Every terminal once, in the order of the language reference. -/
def all : List Terminal :=
  [eof, identifier, numberConstant, stringConstant,
    beginWord, endWord, ifWord, thenWord, elseWord, whileWord, loopWord, doWord, untilWord,
    callWord,
    plus, minus, times, divide,
    greaterThan, greaterEqual, equals, notEqual, lessThan, lessEqual,
    becomes, leftParenthesis, rightParenthesis, comma, semicolon]

/-- No terminal is missing from the list. -/
theorem mem_all (t : Terminal) : t ∈ all := by
  cases t <;> decide

/-- The name of a terminal in traces and in "expected" texts. -/
def name : Terminal → String
  | eof => "eof"
  | identifier => "identifier"
  | numberConstant => "numberConstant"
  | stringConstant => "stringConstant"
  | beginWord => "begin"
  | endWord => "end"
  | ifWord => "if"
  | thenWord => "then"
  | elseWord => "else"
  | whileWord => "while"
  | loopWord => "loop"
  | doWord => "do"
  | untilWord => "until"
  | callWord => "call"
  | plus => "plus"
  | minus => "minus"
  | times => "times"
  | divide => "divide"
  | greaterThan => "greaterThan"
  | greaterEqual => "greaterEqual"
  | equals => "equals"
  | notEqual => "notEqual"
  | lessThan => "lessThan"
  | lessEqual => "lessEqual"
  | becomes => "becomes"
  | leftParenthesis => "leftParenthesis"
  | rightParenthesis => "rightParenthesis"
  | comma => "comma"
  | semicolon => "semicolon"

/-- The terminal with the given name. -/
def ofName? (name : String) : Option Terminal :=
  all.find? (·.name == name)

/-- A name read back gives its terminal. -/
theorem ofName?_name (t : Terminal) : ofName? t.name = some t := by
  cases t <;> decide

/-- Two terminals with one name are equal. -/
theorem name_injective {s t : Terminal} (h : s.name = t.name) : s = t :=
  Option.some.inj (by rw [← ofName?_name s, h, ofName?_name])

/-- The name in capitals, its parts joined by underscores: `GREATER_EQUAL`. -/
def constantName (t : Terminal) : String :=
  String.ofList (t.name.toList.flatMap fun c => if c.isUpper then ['_', c] else [c.toUpper])

/-- **Lexeme carriers**: the terminals whose tokens differ in their text, so that traces show it. -/
def carriesLexeme : Terminal → Bool
  | identifier | numberConstant | stringConstant => true
  | _ => false

/-! ### Spellings -/

/-- The reserved words. -/
def keywords : List (String × Terminal) :=
  [("begin", beginWord), ("end", endWord), ("if", ifWord), ("then", thenWord),
    ("else", elseWord), ("while", whileWord), ("loop", loopWord), ("do", doWord),
    ("until", untilWord), ("call", callWord)]

/-- The operators and punctuation marks. -/
def operators : List (String × Terminal) :=
  [("+", plus), ("-", minus), ("*", times), ("/", divide),
    (">", greaterThan), (">=", greaterEqual), ("=", equals), ("/=", notEqual),
    ("<", lessThan), ("<=", lessEqual),
    (":=", becomes),
    ("(", leftParenthesis), (")", rightParenthesis), (",", comma), (";", semicolon)]

/-- The kind of a word: the keyword it spells, otherwise an identifier. -/
def ofWord (word : String) : Terminal :=
  (keywords.lookup word).getD identifier

/-- The operator with exactly this spelling. -/
def operator? (spelling : String) : Option Terminal :=
  operators.lookup spelling

end Terminal

end SccSharp
