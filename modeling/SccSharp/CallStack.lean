/-!
# Call stacks

A parse is made of calls. Every rule that is open holds one, and whatever is done inside it makes
some more for a moment. The call stack that holds them is bounded, and a parse is given up where it
has no room for a call.

How many calls are made depends on what is done. An event that is written needs more than one that
is dropped, adding a frame to an error may need more than opening the rule did, and the end of a
source needs many where a note is made of it. So a call stack is told by what it has room for among
a number of open rules. A bound on the rules that are open at once is a call stack of its own kind.

## Main Definitions

* `Call` — what calls are made for
* `CallStack` — what there is room for
* `CallStack.unwinds` — room for the frames of all open rules
* `CallStack.limited`, `CallStack.ofSize` — a bound on the open rules, and one on the calls
* `CallStack.standard` — the call stack of the program
-/

namespace SccSharp

/-- What calls are made for inside the rules that are open. -/
inductive Call where
  /-- One more rule is opened. -/
  | opening
  /-- The innermost rule is closed. -/
  | closing
  /-- The event of a token is emitted. -/
  | accepting
  /-- A token other than the sentinel is drawn. -/
  | drawing
  /-- The sentinel is drawn. -/
  | drawingEnd
  /-- A draw fails. -/
  | failing
  /-- The event of a rejection is emitted. -/
  | rejecting
  /-- The innermost rule adds its frame to an error. -/
  | framing
  deriving DecidableEq, Repr

/-- **A call stack**: whether it has room for a call while a number of rules is open. -/
structure CallStack where
  room : Call → Nat → Bool

/-- Whether one more rule may be opened among `count` ones. Without a limit it always may. -/
def mayOpen (limit : Option Nat) (count : Nat) : Bool :=
  limit.all (count < ·)

namespace CallStack

/-- Whether every one of `count` open rules can add its frame to an error, from the innermost one
outwards. -/
def unwinds (stack : CallStack) : Nat → Bool
  | 0 => true
  | count + 1 => stack.room .framing (count + 1) && unwinds stack count

/-- **A bound on the rules that are open at once**, and on nothing else. -/
def limited (limit : Option Nat) : CallStack where
  room
    | .opening, count => mayOpen limit count
    | _, _ => true

@[simp] theorem room_limited_opening (limit : Option Nat) (count : Nat) :
    (limited limit).room .opening count = mayOpen limit count := rfl

/-- A bound on the rules that are open leaves room for everything but opening one. -/
theorem room_limited {call : Call} (h : call ≠ .opening) (limit : Option Nat) (count : Nat) :
    (limited limit).room call count = true := by
  cases call with
  | opening => exact absurd rfl h
  | _ => rfl

/-- It leaves room for all frames. -/
theorem unwinds_limited (limit : Option Nat) (count : Nat) :
    (limited limit).unwinds count = true := by
  induction count with
  | zero => rfl
  | succ count ih =>
      rw [unwinds, ih]
      rfl

/-- **A bound on the calls**: every open rule holds one, and what is done inside it needs some
more. -/
def ofSize (size : Nat) (needs : Call → Nat) : CallStack where
  room call count := count + needs call ≤ size

@[simp] theorem room_ofSize (size : Nat) (needs : Call → Nat) (call : Call) (count : Nat) :
    (ofSize size needs).room call count = decide (count + needs call ≤ size) := rfl

end CallStack

/-- The calls that each thing done needs, by whether the events of rules and tokens are written and
whether notes are. -/
def Call.needs (traced verbose : Bool) : Call → Nat
  | opening => if traced then 10 else 7
  | closing => if traced then 9 else 6
  | accepting => if traced then 7 else 5
  | drawing => 5
  | drawingEnd => if verbose then 14 else 5
  | failing => 8
  | rejecting => 6
  | framing => 9

/-- **The call stack of the program**, by what is written: it holds a thousand calls, and some of
them are made around a parse. -/
def CallStack.standard (traced verbose : Bool) : CallStack :=
  .ofSize 992 (Call.needs traced verbose)

end SccSharp
