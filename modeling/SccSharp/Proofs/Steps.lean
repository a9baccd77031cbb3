import SccSharp.Analyser

/-!
# Runs step by step

What one step of a run can do, and how a run ends. `Cursor.Step` has one constructor for every
entry of an agenda that can be worked off, and `Cursor.Halts` one for every way to go no further.

Steps emit events and draw tokens, and nothing else changes in a cursor: `Cursor.after` is a cursor
some tokens and events later, and every sequence of steps leads to such a cursor
(`Steps.exists_after`).

## Main Definitions

* `Feed.Leads` — the tokens that are passed on the way from one lookahead to a later one
* `Cursor.after` — a cursor with tokens passed and events emitted
* `Cursor.Step`, `Cursor.Steps`, `Cursor.Halts` — one step, many, and the end
* `Cursor.Wider` — a limit that allows no less than another

## Main Statements

* `Steps.exists_after` — what steps do to a cursor
* `Steps.widen`, `Halts.widen` — a limit changes nothing but that it may be hit
-/

namespace SccSharp

/-! ### Looking further ahead -/

section Leads

variable {σ ε : Type} [Feed σ ε]

/-- **From one lookahead to a later one**: a lookahead with the feed behind it, the tokens passed,
and the lookahead and feed after them. -/
inductive Feed.Leads : Token × σ → List Token → Token × σ → Prop where
  | refl (front : Token × σ) : Leads front [] front
  | pass {a b : Token} {s s' : σ} {tokens : List Token} {front : Token × σ} :
      Feed.draw s = (.ok b, s') → Leads (b, s') tokens front → Leads (a, s) (a :: tokens) front

namespace Feed.Leads

variable {front middle front' : Token × σ} {first second : List Token}

theorem append (h : Leads front first middle) (h' : Leads middle second front') :
    Leads front (first ++ second) front' := by
  induction h with
  | refl front => exact h'
  | pass hdraw _ ih => exact .pass hdraw (ih h')

theorem of_append (h : Leads front (first ++ second) front') :
    ∃ middle, Leads front first middle ∧ Leads middle second front' := by
  induction first generalizing front with
  | nil => exact ⟨front, .refl front, h⟩
  | cons a first ih =>
      cases h with
      | pass hdraw h =>
          obtain ⟨middle, hfirst, hsecond⟩ := ih h
          exact ⟨middle, .pass hdraw hfirst, hsecond⟩

/-- As many tokens on, there is only one lookahead. -/
theorem unique (h : Leads front first middle) (h' : Leads front second front')
    (same : first.length = second.length) : first = second ∧ middle = front' := by
  induction h generalizing second with
  | refl front =>
      obtain rfl := List.length_eq_zero_iff.1 same.symm
      cases h'
      exact ⟨rfl, rfl⟩
  | pass hdraw _ ih =>
      cases h' with
      | refl => cases same
      | pass hdraw' h' =>
          rw [hdraw] at hdraw'
          cases hdraw'
          obtain ⟨rfl, rfl⟩ := ih h' (Nat.succ.inj same)
          exact ⟨rfl, rfl⟩

end Feed.Leads

end Leads

/-! ### A cursor later on -/

/-- The token that an event accepts. -/
def Event.accepted? : Event → Option Token
  | accepted t => some t
  | _ => none

/-- **The tokens accepted** in some events. -/
def acceptedTokens (events : List Event) : List Token :=
  events.filterMap Event.accepted?

@[simp] theorem acceptedTokens_nil : acceptedTokens [] = [] := rfl

@[simp] theorem acceptedTokens_append (first second : List Event) :
    acceptedTokens (first ++ second) = acceptedTokens first ++ acceptedTokens second :=
  List.filterMap_append

@[simp] theorem acceptedTokens_opened (r : Rule) (events : List Event) :
    acceptedTokens (.opened r :: events) = acceptedTokens events := rfl

@[simp] theorem acceptedTokens_closed (r : Rule) (events : List Event) :
    acceptedTokens (.closed r :: events) = acceptedTokens events := rfl

@[simp] theorem acceptedTokens_accepted (t : Token) (events : List Event) :
    acceptedTokens (.accepted t :: events) = t :: acceptedTokens events := rfl

@[simp] theorem acceptedTokens_rejected (t : Token) (e : Expectation) (events : List Event) :
    acceptedTokens (.rejected t e :: events) = acceptedTokens events := rfl

/-- An event that accepts nothing adds no token. -/
theorem acceptedTokens_concat {e : Event} (h : e.accepted? = none) (events : List Event) :
    acceptedTokens (events ++ [e]) = acceptedTokens events := by
  have hnone : acceptedTokens [e] = [] := List.filterMap_cons_none h
  rw [acceptedTokens_append, hnone, List.append_nil]

/-- A sink after some events. -/
def Sink.emitAll (s : Sink) (events : List Event) : Sink :=
  events.foldl Sink.emit s

@[simp] theorem Sink.emitAll_append (s : Sink) (first second : List Event) :
    s.emitAll (first ++ second) = (s.emitAll first).emitAll second :=
  List.foldl_append

/-- A record keeps all events. -/
theorem Sink.emitAll_record (kept : Array Event) (events : List Event) :
    (Sink.record kept).emitAll events = .record (kept ++ events) := by
  induction events generalizing kept with
  | nil => simp [emitAll]
  | cons e events ih =>
      show (Sink.record (kept.push e)).emitAll events = _
      rw [ih]
      simp

/-- The events in a record that started empty. -/
theorem Sink.events_emitAll_recording (events : List Event) :
    (Sink.recording.emitAll events).events = events := by
  rw [recording, emitAll_record]
  simp [Sink.events]

namespace Cursor

variable {σ ε : Type}

/-- The lookahead of a cursor with the feed behind it. -/
def front (c : Cursor σ) : Token × σ :=
  (c.lookahead, c.feed)

/-- **A cursor later on**: with a number of tokens passed, events emitted, and a later lookahead. -/
def after (c : Cursor σ) (tokens : List Token) (events : List Event) (front : Token × σ) :
    Cursor σ where
  feed := front.2
  lookahead := front.1
  consumed := c.consumed + tokens.length
  sink := c.sink.emitAll events

@[simp] theorem front_after (c : Cursor σ) (tokens : List Token) (events : List Event)
    (front : Token × σ) : (c.after tokens events front).front = front := rfl

@[simp] theorem after_nil (c : Cursor σ) : c.after [] [] c.front = c := rfl

@[simp] theorem after_after (c : Cursor σ) (tokens tokens' : List Token)
    (events events' : List Event) (front front' : Token × σ) :
    (c.after tokens events front).after tokens' events' front' =
      c.after (tokens ++ tokens') (events ++ events') front' := by
  simp [after, Nat.add_assoc]

/-- Emitting an event passes no token. -/
theorem emit_eq_after (c : Cursor σ) (e : Event) : c.emit e = c.after [] [e] c.front := rfl

@[simp] theorem front_emit (c : Cursor σ) (e : Event) : (c.emit e).front = c.front := rfl

/-! ### Steps and halts -/

variable [Feed σ ε]

/-- **One step of a run**, with the agenda before and after it. -/
inductive Step (limit : Option Nat) : Cursor σ → Agenda → Cursor σ → Agenda → Prop where
  | close {c : Cursor σ} {o : OpenRule} {agenda : Agenda} :
      Step limit c (.close o :: agenda) (c.emit (.closed o.rule)) agenda
  | continuation {c : Cursor σ} {k : Continuation} {agenda : Agenda} :
      Step limit c (.part (.continuation k) :: agenda)
        c ((k.body c.lookahead.kind).map .part ++ agenda)
  | accept {c : Cursor σ} {next : Token} {feed : σ} {agenda : Agenda} :
      Feed.draw c.feed = (.ok next, feed) →
        Step limit c (.part (.terminal c.lookahead.kind) :: agenda)
          (c.after [c.lookahead] [.accepted c.lookahead] (next, feed)) agenda
  | opening {c : Cursor σ} {r : Rule} {body : List Part} {agenda : Agenda} :
      mayOpen limit (openRules agenda).length = true → r.body c.lookahead.kind = .ok body →
        Step limit c (.part (.rule r) :: agenda)
          (c.emit (.opened r)) (body.map .part ++ .close ⟨r, c.lookahead.line⟩ :: agenda)

/-- **Steps of a run**, any number of them. -/
inductive Steps (limit : Option Nat) : Cursor σ → Agenda → Cursor σ → Agenda → Prop where
  | refl {c : Cursor σ} {agenda : Agenda} : Steps limit c agenda c agenda
  | step {c c' d : Cursor σ} {agenda agenda' last : Agenda} :
      Step limit c agenda c' agenda' → Steps limit c' agenda' d last →
        Steps limit c agenda d last

/-- **The end of a run**: where no step is possible, the reason and the cursor left. -/
inductive Halts (limit : Option Nat) : Cursor σ → Agenda → Option (Stop ε) → Cursor σ → Prop where
  | done {c : Cursor σ} : Halts limit c [] none c
  | mismatch {c : Cursor σ} {t : Terminal} {agenda : Agenda} :
      c.lookahead.kind ≠ t →
        Halts limit c (.part (.terminal t) :: agenda)
          (some (.syntaxError ((SyntaxError.raised (.terminal t c.lookahead.line)
            c.lookahead).withinAll (openRules agenda))))
          (c.emit (.rejected c.lookahead (.terminal t c.lookahead.line)))
  | starved {c : Cursor σ} {e : ε} {feed : σ} {agenda : Agenda} :
      Feed.draw c.feed = (.error e, feed) →
        Halts limit c (.part (.terminal c.lookahead.kind) :: agenda) (some (.sourceFailed e))
          (c.after [] [.accepted c.lookahead] (c.lookahead, feed))
  | choice {c : Cursor σ} {r : Rule} {alternatives : Choice} {agenda : Agenda} :
      mayOpen limit (openRules agenda).length = true →
        r.body c.lookahead.kind = .error alternatives →
          Halts limit c (.part (.rule r) :: agenda)
            (some (.syntaxError ((SyntaxError.raised (.choice alternatives c.lookahead.line)
              c.lookahead).withinAll (⟨r, c.lookahead.line⟩ :: openRules agenda))))
            ((c.emit (.opened r)).emit
              (.rejected c.lookahead (.choice alternatives c.lookahead.line)))
  | tooDeep {c : Cursor σ} {r : Rule} {agenda : Agenda} :
      mayOpen limit (openRules agenda).length = false →
        Halts limit c (.part (.rule r) :: agenda)
          (some (.tooDeep ⟨c.lookahead, c.consumed⟩)) c

theorem Steps.trans {limit : Option Nat} {c c' d : Cursor σ} {first second third : Agenda}
    (h : Steps limit c first c' second) (h' : Steps limit c' second d third) :
    Steps limit c first d third := by
  induction h with
  | refl => exact h'
  | step hstep _ ih => exact .step hstep (ih h')

/-! ### What steps do to a cursor -/

/-- A step draws the tokens it accepts and emits its events, and does nothing else. -/
theorem Step.exists_after {limit : Option Nat} {c d : Cursor σ} {agenda agenda' : Agenda}
    (h : Step limit c agenda d agenda') :
    ∃ events, Feed.Leads c.front (acceptedTokens events) d.front ∧
      d = c.after (acceptedTokens events) events d.front := by
  cases h with
  | close => exact ⟨[.closed _], .refl _, rfl⟩
  | continuation => exact ⟨[], .refl _, rfl⟩
  | accept hdraw => exact ⟨[.accepted c.lookahead], .pass hdraw (.refl _), rfl⟩
  | opening => exact ⟨[.opened _], .refl _, rfl⟩

/-- **Steps draw the tokens they accept** and emit their events, and do nothing else. -/
theorem Steps.exists_after {limit : Option Nat} {c d : Cursor σ} {agenda agenda' : Agenda}
    (h : Steps limit c agenda d agenda') :
    ∃ events, Feed.Leads c.front (acceptedTokens events) d.front ∧
      d = c.after (acceptedTokens events) events d.front := by
  induction h with
  | refl => exact ⟨[], .refl _, rfl⟩
  | step hstep _ ih =>
      obtain ⟨first, hfirst, heq⟩ := hstep.exists_after
      obtain ⟨later, hlater, heq'⟩ := ih
      refine ⟨first ++ later, ?_, ?_⟩
      · rw [acceptedTokens_append]
        exact hfirst.append hlater
      · rw [acceptedTokens_append, ← after_after _ _ _ _ _ _ _, ← heq]
        exact heq'

/-! ### Limits -/

/-- Without a limit every rule may be opened. -/
theorem mayOpen_none (count : Nat) : mayOpen none count = true := rfl

/-- **A wider limit**: it lets a rule be opened wherever the other one does. -/
def Wider (limit wider : Option Nat) : Prop :=
  ∀ count, mayOpen limit count = true → mayOpen wider count = true

/-- No limit is wider than any. -/
theorem Wider.unlimited (limit : Option Nat) : Wider limit none :=
  fun count _ => mayOpen_none count

section Wider

variable {limit wider : Option Nat} {c d : Cursor σ} {agenda agenda' : Agenda}

/-- A step under a limit is one under a wider limit. -/
theorem Step.widen (hwider : Wider limit wider) (h : Step limit c agenda d agenda') :
    Step wider c agenda d agenda' := by
  cases h with
  | close => exact .close
  | continuation => exact .continuation
  | accept hdraw => exact .accept hdraw
  | opening hopen hbody => exact .opening (hwider _ hopen) hbody

/-- Steps under a limit are steps under a wider one. -/
theorem Steps.widen (hwider : Wider limit wider) (h : Steps limit c agenda d agenda') :
    Steps wider c agenda d agenda' := by
  induction h with
  | refl => exact .refl
  | step hstep _ ih => exact .step (hstep.widen hwider) ih

/-- A halt under a limit is one under a wider limit, unless the limit makes it. -/
theorem Halts.widen (hwider : Wider limit wider) {stop : Option (Stop ε)}
    (h : Halts limit c agenda stop d) (hstop : ∀ e, stop ≠ some (.tooDeep e)) :
    Halts wider c agenda stop d := by
  cases h with
  | done => exact .done
  | mismatch hne => exact .mismatch hne
  | starved hdraw => exact .starved hdraw
  | choice hopen hbody => exact .choice (hwider _ hopen) hbody
  | tooDeep => exact absurd rfl (hstop _)

end Wider

end Cursor

end SccSharp
