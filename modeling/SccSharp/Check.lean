import SccSharp.Analyser
import SccSharp.Reader

/-!
# Checking source text

A reader over source text as the feed of an analyser.

## Main Definitions

* `tokensOf` — the tokens of a source
* `check` — the verdict on a source, on a call stack
-/

namespace SccSharp

/-- The tokens of a source, the sentinel last, or why they end before it. -/
def tokensOf (source : Reader) : Except SourceFailure (List Token) :=
  match Feed.drain source with
  | (tokens, none, _) => .ok tokens.toList
  | (_, some failure, _) => .error failure

/-- The number of rules that may be open at once where nothing else is said of the call stack. -/
def nestingLimit : Option Nat :=
  some 1000

/-- The verdict on a source, and the analyser with the events of the check in its sink. -/
def check (source : Reader) (start : Rule := .statementPart) (sink : Sink := .discard)
    (stack : CallStack := .limited nestingLimit) :
    Except (Stop SourceFailure) Verdict × Analyser Reader :=
  (Analyser.fresh source sink).analyseOn stack start

end SccSharp
