import SccSharp.Agenda
import SccSharp.CallStack
import SccSharp.Event
import SccSharp.Feed

/-!
# The analyser

Checks that a feed of tokens is a sentence of the grammar, with one token of lookahead and an
explicit agenda instead of nested calls. It builds no tree: its results are the events it emits,
in the order rules are opened and closed and tokens accepted, and on failure a syntax error with
the rules open at that moment.

A run ends in one of four ways: it works off its agenda, it meets a syntax error, its feed fails,
or it is given up where its call stack has no room. That may be where a rule would be opened, but
also behind the event of a token or of a rejection, while a draw is made or a frame is added. The
call stack is a parameter. A limit on the rules that are open at once is a special one; without
any, every run over a feed ends by itself, because between two tokens only boundedly many rules are
opened and a feed runs dry.

## Main Definitions

* `Cursor` — a feed with its lookahead, the count of tokens accepted, and the sink of events
* `Cursor.accept`, `Cursor.acceptWithin` — one terminal, by itself and inside open rules
* `Cursor.runOn`, `Cursor.run` — an agenda, on a call stack and under a limit
* `Cursor.parseOn`, `Cursor.parse` — a start rule and the end of input after it
* `Analyser` — a feed before or after its first draw, with the operations of a session
-/

namespace SccSharp

/-! ### Ends of an operation -/

/-- An operation asked for at the wrong time. -/
inductive Misuse where
  /-- There is no lookahead yet. -/
  | notStarted
  /-- There is one already. -/
  | alreadyStarted
  deriving DecidableEq, Repr

/-- A misuse in words. -/
def Misuse.message : Misuse → String
  | notStarted => "parse has not started"
  | alreadyStarted => "a Parser checks a single token stream; create a new one"

/-- Why an operation ended early; `ε` is what a failed draw gives. -/
inductive Stop (ε : Type) where
  | syntaxError (e : SyntaxError)
  | sourceFailed (e : ε)
  | tooDeep (e : DepthError)
  | misused (m : Misuse)
  deriving DecidableEq, Repr

/-- What a call is made for that draws, by what is drawn. -/
def Call.ofDraw {α : Type} : Except α Token → Call
  | .ok t => if t.isEnd then drawingEnd else drawing
  | .error _ => failing

/-- It opens no rule. -/
theorem Call.ofDraw_ne_opening {α : Type} (drawn : Except α Token) : ofDraw drawn ≠ .opening := by
  unfold ofDraw
  split
  · split <;> decide
  · decide

/-- A stop seen from the rules around it: only a syntax error takes notice of them. -/
def Stop.withinAll {ε : Type} (s : Stop ε) (rules : List OpenRule) : Stop ε :=
  match s with
  | .syntaxError e => .syntaxError (e.withinAll rules)
  | _ => s

/-! ### Cursors -/

/-- **A feed with one token of lookahead**, the number of tokens accepted so far, and the sink that
takes the events. -/
structure Cursor (σ : Type) where
  feed : σ
  lookahead : Token
  consumed : Nat := 0
  sink : Sink

namespace Cursor

variable {σ ε : Type}

/-- The cursor after one more event. -/
def emit (c : Cursor σ) (e : Event) : Cursor σ :=
  { c with sink := c.sink.emit e }

/-- Rejects a token: emits the event of it and gives the error. -/
def reject (c : Cursor σ) (found : Token) (expected : Expectation) : Stop ε × Cursor σ :=
  (.syntaxError (.raised expected found), c.emit (.rejected found expected))

variable [Feed σ ε]

/-- **Accepts a terminal**: emits its event and draws the next token. If the draw fails, the event
stays emitted, but the lookahead and the count do not change. Another lookahead is rejected and
nothing is drawn. -/
def accept (c : Cursor σ) (t : Terminal) : Except (Stop ε) Token × Cursor σ :=
  if c.lookahead.kind = t then
    let c := c.emit (.accepted c.lookahead)
    match Feed.draw c.feed with
    | (.ok next, feed) =>
        (.ok c.lookahead, { c with feed := feed, lookahead := next, consumed := c.consumed + 1 })
    | (.error e, feed) => (.error (.sourceFailed e), { c with feed := feed })
  else
    let (stop, c) := c.reject c.lookahead (.terminal t c.lookahead.line)
    (.error stop, c)

/-! ### Inside open rules -/

/-- A parse is given up at the lookahead. -/
def giveUp (c : Cursor σ) : Stop ε :=
  .tooDeep ⟨c.lookahead, c.consumed⟩

/-- **Rejects the lookahead inside some rules**, each of which adds its frame to the error. Where
there is no room for all frames the event has been emitted already. -/
def rejectWithin (stack : CallStack) (rules : List OpenRule) (c : Cursor σ)
    (expected : Expectation) : Stop ε × Cursor σ :=
  if stack.room .rejecting rules.length then
    let (stop, d) := c.reject c.lookahead expected
    if stack.unwinds rules.length then (stop.withinAll rules, d) else (c.giveUp, d)
  else (c.giveUp, c)

/-- **Accepts a terminal inside some rules.** Where there is no room for the draw the event of the
token has been emitted already, but the lookahead and the count do not change. -/
def acceptWithin (stack : CallStack) (rules : List OpenRule) (c : Cursor σ) (t : Terminal) :
    Except (Stop ε) Token × Cursor σ :=
  if c.lookahead.kind = t then
    if stack.room .accepting rules.length then
      let (result, d) := c.accept t
      if stack.room (.ofDraw (result.map fun _ => d.lookahead)) rules.length then (result, d)
      else (.error c.giveUp, { d with lookahead := c.lookahead, consumed := c.consumed })
    else (.error c.giveUp, c)
  else
    let (stop, d) := c.rejectWithin stack rules (.terminal t c.lookahead.line)
    (.error stop, d)

/-- A terminal is accepted inside some rules as it is by itself. -/
theorem accept_of_acceptWithin {stack : CallStack} {rules : List OpenRule} {c c' : Cursor σ}
    {t : Terminal} {token : Token} (h : c.acceptWithin stack rules t = (.ok token, c')) :
    c.accept t = (.ok token, c') := by
  unfold acceptWithin at h
  split at h
  · split at h
    · dsimp only at h
      split at h
      · exact h
      · cases h
    · cases h
  · cases h

/-! ### What can still be accepted -/

/-- A bound on the tokens other than the sentinel that can still be accepted. -/
def size (c : Cursor σ) : Nat :=
  Feed.size c.feed + if c.lookahead.kind = .eof then 0 else 1

/-- Emitting does not touch the feed. -/
@[simp] theorem size_emit (c : Cursor σ) (e : Event) : (c.emit e).size = c.size := rfl

/-- Accepting a terminal draws the next lookahead. -/
theorem accept_ok {c c' : Cursor σ} {t : Terminal} {token : Token}
    (h : c.accept t = (.ok token, c')) :
    c.lookahead.kind = t ∧ Feed.draw c.feed = (.ok c'.lookahead, c'.feed) := by
  unfold accept at h
  split at h
  · next hkind =>
      refine ⟨hkind, ?_⟩
      dsimp only [emit] at h
      split at h
      · next heq =>
          cases h
          exact heq
      · cases h
  · cases h

/-- What can still be accepted after a terminal had to come from the feed. -/
theorem size_accept_le {c c' : Cursor σ} {t : Terminal} {token : Token}
    (h : c.accept t = (.ok token, c')) : c'.size ≤ Feed.size c.feed := by
  have hdraw := (accept_ok h).2
  have hle := Feed.size_draw_le c.feed
  have hlt := Feed.size_draw_lt c.feed c'.lookahead (by rw [hdraw])
  rw [hdraw] at hle hlt
  unfold size
  split
  · exact hle
  · next hmore => exact hlt hmore

/-- Accepting a terminal other than the sentinel takes away from what can be accepted. -/
theorem size_accept_lt {c c' : Cursor σ} {t : Terminal} {token : Token}
    (h : c.accept t = (.ok token, c')) (ht : t ≠ .eof) : c'.size < c.size := by
  have hmore : c.lookahead.kind ≠ .eof := (accept_ok h).1 ▸ ht
  have := size_accept_le h
  simp only [size, hmore, if_false] at this ⊢
  omega

/-- Accepting a terminal takes away from what can be accepted, or at least from what is to do before
the next terminal. -/
theorem nearer_of_accept {c c' : Cursor σ} {t : Terminal} {token : Token}
    (h : c.accept t = (.ok token, c')) (agenda : Agenda) :
    Prod.Lex (· < ·) (· < ·) (c'.size, agenda.reach)
      (c.size, Agenda.reach (.part (.terminal t) :: agenda)) := by
  by_cases ht : t = .eof
  · have hle : c'.size ≤ c.size := Nat.le_trans (size_accept_le h) (Nat.le_add_right _ _)
    rcases Nat.lt_or_eq_of_le hle with hlt | heq
    · exact Prod.Lex.left _ _ hlt
    · rw [heq]
      exact Prod.Lex.right _ (by simp [Agenda.reach, ht])
  · exact Prod.Lex.left _ _ (size_accept_lt h ht)

/-! ### Runs -/

/-- **Works off an agenda on a call stack.** Gives the reason if it ended early. -/
def runOn (stack : CallStack) (c : Cursor σ) : Agenda → Option (Stop ε) × Cursor σ
  | [] => (none, c)
  | .close o :: agenda =>
      if stack.room .closing ((openRules agenda).length + 1) then
        runOn stack (c.emit (.closed o.rule)) agenda
      else (some c.giveUp, c)
  | .part (.continuation k) :: agenda =>
      runOn stack c ((k.body c.lookahead.kind).map .part ++ agenda)
  | .part (.terminal t) :: agenda =>
      match _accepted : c.acceptWithin stack (openRules agenda) t with
      | (.ok _, c') => runOn stack c' agenda
      | (.error stop, c') => (some stop, c')
  | .part (.rule r) :: agenda =>
      if stack.room .opening (openRules agenda).length then
        let opened : OpenRule := ⟨r, c.lookahead.line⟩
        match _produced : r.body c.lookahead.kind with
        | .ok parts =>
            runOn stack (c.emit (.opened r)) (parts.map .part ++ .close opened :: agenda)
        | .error choice =>
            let (stop, c') := (c.emit (.opened r)).rejectWithin stack (opened :: openRules agenda)
              (.choice choice c.lookahead.line)
            (some stop, c')
      else (some c.giveUp, c)
termination_by agenda => (c.size, agenda.reach)
decreasing_by
  · exact Prod.Lex.right _ (Nat.lt_succ_self _)
  · exact Prod.Lex.right _ (Agenda.reach_continuation_lt k _ agenda)
  · exact nearer_of_accept (accept_of_acceptWithin _accepted) agenda
  · exact Prod.Lex.right _ (Agenda.reach_body_lt _produced _ agenda)

/-- **Works off an agenda** with a limit on the rules open at once. -/
def run (limit : Option Nat) (c : Cursor σ) (agenda : Agenda) : Option (Stop ε) × Cursor σ :=
  c.runOn (.limited limit) agenda

/-- Recognises one rule. -/
def derive (limit : Option Nat) (c : Cursor σ) (r : Rule) : Option (Stop ε) × Cursor σ :=
  c.run limit [.part (.rule r)]

/-- **Checks a whole input on a call stack**: the start rule, then the sentinel. Success is an event
of its own. -/
def parseOn (stack : CallStack) (c : Cursor σ) (start : Rule) : Option (Stop ε) × Cursor σ :=
  match c.runOn stack [.part (.rule start), .part (.terminal .eof)] with
  | (none, c') => (none, c'.emit .succeeded)
  | (some stop, c') => (some stop, c')

/-- Checks a whole input with a limit. -/
def parse (limit : Option Nat) (c : Cursor σ) (start : Rule) : Option (Stop ε) × Cursor σ :=
  c.parseOn (.limited limit) start

end Cursor

/-! ### Sessions -/

/-- **An analyser**: a feed nothing has been drawn from successfully, or a cursor on it. -/
inductive Analyser (σ : Type) where
  | fresh (feed : σ) (sink : Sink)
  | started (cursor : Cursor σ)

namespace Analyser

variable {σ ε : Type}

/-- The sink of the events. -/
def sink : Analyser σ → Sink
  | fresh _ sink => sink
  | started cursor => cursor.sink

/-- The feed in its present state. -/
def feed : Analyser σ → σ
  | fresh feed _ => feed
  | started cursor => cursor.feed

/-- The number of tokens accepted. -/
def consumed : Analyser σ → Nat
  | fresh .. => 0
  | started cursor => cursor.consumed

/-- The token that would be accepted next, once there is one. -/
def lookahead? : Analyser σ → Option Token
  | fresh .. => none
  | started cursor => some cursor.lookahead

/-- Rejects a token on behalf of a caller. -/
def report (a : Analyser σ) (found : Token) (expected : Expectation) : Stop ε × Analyser σ :=
  match a with
  | fresh feed sink =>
      (.syntaxError (.raised expected found), fresh feed (sink.emit (.rejected found expected)))
  | started cursor =>
      let (stop, cursor) := cursor.reject found expected
      (stop, started cursor)

variable [Feed σ ε]

/-- Draws the first token. A failed draw leaves the analyser fresh. -/
def start (a : Analyser σ) : Except (Stop ε) (Cursor σ) × Analyser σ :=
  match a with
  | started _ => (.error (.misused .alreadyStarted), a)
  | fresh feed sink =>
      match Feed.draw feed with
      | (.ok token, feed) =>
          let cursor : Cursor σ := { feed := feed, lookahead := token, sink := sink }
          (.ok cursor, started cursor)
      | (.error e, feed) => (.error (.sourceFailed e), fresh feed sink)

/-- Accepts a terminal. -/
def accept (a : Analyser σ) (t : Terminal) : Except (Stop ε) Token × Analyser σ :=
  match a with
  | fresh .. => (.error (.misused .notStarted), a)
  | started cursor =>
      let (result, cursor) := cursor.accept t
      (result, started cursor)

/-- Recognises one rule. -/
def derive (limit : Option Nat) (a : Analyser σ) (r : Rule) : Option (Stop ε) × Analyser σ :=
  match a with
  | fresh .. => (some (.misused .notStarted), a)
  | started cursor =>
      let (stop, cursor) := cursor.derive limit r
      (stop, started cursor)

/-- Checks a whole input on a call stack. The first draw is made before any rule is open. -/
def parseOn (stack : CallStack) (a : Analyser σ) (r : Rule) : Option (Stop ε) × Analyser σ :=
  match a.start with
  | (.error stop, a) => (some stop, a)
  | (.ok cursor, _) =>
      let (stop, cursor) := cursor.parseOn stack r
      (stop, started cursor)

/-- Checks a whole input with a limit. -/
def parse (limit : Option Nat) (a : Analyser σ) (r : Rule) : Option (Stop ε) × Analyser σ :=
  a.parseOn (.limited limit) r

/-- Checks a whole input on a call stack and gives a verdict; what is no syntax error remains a
stop. -/
def analyseOn (stack : CallStack) (a : Analyser σ) (r : Rule) :
    Except (Stop ε) Verdict × Analyser σ :=
  match a.parseOn stack r with
  | (none, a) => (.ok {}, a)
  | (some (.syntaxError e), a) => (.ok ⟨some e⟩, a)
  | (some stop, a) => (.error stop, a)

/-- Checks a whole input with a limit and gives a verdict. -/
def analyse (limit : Option Nat) (a : Analyser σ) (r : Rule) :
    Except (Stop ε) Verdict × Analyser σ :=
  a.analyseOn (.limited limit) r

end Analyser

end SccSharp
