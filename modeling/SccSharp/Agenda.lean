import SccSharp.SyntaxError

/-!
# Agendas

What a parse still has to do, in order: parts of productions, and the closing of the rules that are
open. The agenda is the whole control state of the analyser, so the rules that are open can be read
off it.

Between two terminals only a bounded number of rules is opened. `Agenda.reach` bounds the entries
that are worked off before a terminal is asked for; it is what the analyser's recursion rests on.

## Main Definitions

* `Task`, `Agenda` — one thing to do, and the list of them
* `openRules` — the rules an agenda will close, innermost first
* `Agenda.reach` — how far away the next terminal is
-/

namespace SccSharp

/-- One thing to do. -/
inductive Task where
  /-- Recognise a part of a production. -/
  | part (p : Part)
  /-- Close a rule whose production has been recognised. -/
  | close (o : OpenRule)
  deriving DecidableEq, Repr

/-- The things to do, the next one first. -/
abbrev Agenda := List Task

/-- The rule that a task closes. -/
def Task.closes? : Task → Option OpenRule
  | close o => some o
  | part _ => none

/-- The rules that are open, innermost first. -/
def openRules (agenda : Agenda) : List OpenRule :=
  agenda.filterMap Task.closes?

@[simp] theorem openRules_nil : openRules [] = [] := rfl

@[simp] theorem openRules_close (o : OpenRule) (agenda : Agenda) :
    openRules (.close o :: agenda) = o :: openRules agenda := rfl

@[simp] theorem openRules_part (p : Part) (agenda : Agenda) :
    openRules (.part p :: agenda) = openRules agenda := rfl

@[simp] theorem openRules_append (first second : Agenda) :
    openRules (first ++ second) = openRules first ++ openRules second := by
  simp [openRules]

/-- Parts of a production close nothing. -/
@[simp] theorem openRules_parts (parts : List Part) : openRules (parts.map Task.part) = [] := by
  simp [openRules, Task.closes?]

/-! ### The distance to the next terminal -/

/-- An upper bound on the entries a rule puts in front of the first terminal it asks for, itself
included. -/
def Rule.reach : Rule → Nat
  | .statementList => 6
  | .statement => 3
  | .assignmentRemainder => 7
  | .expression => 5
  | .expressionRemainder | .ifRemainder => 2
  | _ => 1

/-- An upper bound on the entries worked off before the next terminal other than the sentinel. -/
def Agenda.reach : Agenda → Nat
  | [] => 0
  | .close _ :: agenda => reach agenda + 1
  | .part (.continuation _) :: agenda => reach agenda + 1
  | .part (.rule r) :: agenda => reach agenda + r.reach
  | .part (.terminal t) :: agenda => if t = .eof then reach agenda + 1 else 0

/-- Opening a rule brings the next terminal nearer. -/
theorem Agenda.reach_body_lt {r : Rule} {next : Terminal} {parts : List Part}
    (h : r.body next = .ok parts) (o : OpenRule) (agenda : Agenda) :
    reach (parts.map .part ++ .close o :: agenda) < reach (.part (.rule r) :: agenda) := by
  cases r <;> cases next <;> cases h <;>
    simp only [List.map_cons, List.map_nil, List.cons_append, List.nil_append, reach, Rule.reach,
      reduceCtorEq, if_false] <;> omega

/-- Going on with a continuation brings the next terminal nearer. -/
theorem Agenda.reach_continuation_lt (c : Continuation) (next : Terminal) (agenda : Agenda) :
    reach ((c.body next).map .part ++ agenda) < reach (.part (.continuation c) :: agenda) := by
  cases c <;> cases next <;>
    simp only [Continuation.body, List.map_cons, List.map_nil, List.cons_append, List.nil_append,
      reach, reduceCtorEq, if_false] <;> omega

end SccSharp
