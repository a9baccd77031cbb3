import SccSharp.SyntaxError

/-!
# Trace events

What a parse does, step by step: rules opened and closed, tokens accepted, and the outcome.

## Main Definitions

* `Event` — one step, `Event.lines` its lines in a trace
* `Event.isOutcome` — the two events that end a trace
* `Sink` — where events go: kept, written as text, or dropped
-/

namespace SccSharp

/-- One step of a parse. -/
inductive Event where
  /-- A rule was opened. -/
  | opened (r : Rule)
  /-- A rule was closed. -/
  | closed (r : Rule)
  /-- A token was accepted. -/
  | accepted (t : Token)
  /-- The whole input was accepted. -/
  | succeeded
  /-- A token was rejected. -/
  | rejected (found : Token) (expected : Expectation)
  deriving DecidableEq, Repr

namespace Event

/-- The lines of an event in a trace: two for a rejection, otherwise one. -/
def lines : Event → List String
  | opened r => ["BEGIN " ++ r.label]
  | closed r => ["END " ++ r.label]
  | accepted t => ["TOKEN " ++ t.traceText ++ " on line " ++ toString t.line]
  | succeeded => ["SUCCESS"]
  | rejected found expected =>
      ["COMPILATION_EXCEPTION",
        "EXPECTED " ++ expected.text ++ ", found: '" ++ found.text ++ "'"]

/-- Whether an event tells how a parse ended. -/
def isOutcome : Event → Bool
  | succeeded | rejected .. => true
  | _ => false

end Event

/-! ### Sinks -/

/-- How a trace is written: the marker in front of every line, and whether rules and tokens are
written or only the outcome. -/
structure TraceStyle where
  marker : String := ""
  rules : Bool := true
  deriving DecidableEq, Repr

/-- What a style writes for an event. -/
def TraceStyle.render (style : TraceStyle) (e : Event) : String :=
  if style.rules || e.isOutcome then
    String.join (e.lines.map fun line => style.marker ++ line ++ "\n")
  else ""

/-- **Where events go.** -/
inductive Sink where
  /-- Every event is kept. -/
  | record (events : Array Event)
  /-- Every event is written as text. -/
  | write (style : TraceStyle) (written : String)
  /-- Every event is dropped. -/
  | discard
  deriving DecidableEq, Repr

namespace Sink

/-- A record of no events. -/
def recording : Sink :=
  record #[]

/-- A text with nothing written yet. -/
def writing (style : TraceStyle) : Sink :=
  write style ""

/-- A sink after one more event. -/
def emit (s : Sink) (e : Event) : Sink :=
  match s with
  | record events => record (events.push e)
  | write style written => write style (written ++ style.render e)
  | discard => discard

/-- The events kept. -/
def events : Sink → List Event
  | record events => events.toList
  | _ => []

/-- The text written. -/
def written : Sink → String
  | write _ written => written
  | _ => ""

/-- The lines of the events kept. -/
def lines (s : Sink) : List String :=
  s.events.flatMap Event.lines

end Sink

end SccSharp
