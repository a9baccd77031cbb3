import SccSharp.Proofs.Outcome

/-!
# From one token to the next

Between two tokens the analyser only looks: it opens and closes rules and decides continuations, all
by the token ahead. These are the moves of an agenda (`Agenda.Moves`). They need no source and know
no limit, and where they come to a standstill is settled by the agenda and the token
(`Agenda.Moves.unique`). Passing tokens is moving to each of them in turn (`Agenda.Passes`).

A run over any source, as far as it gets, passes the tokens it accepts and has made some moves since
(`Cursor.Stands`). So what a syntax error was led up to can be said of agendas alone.

## Main Definitions

* `Agenda.Moves`, `Agenda.Still` — moves by one token, and where there are none left
* `Agenda.Passes` — moves through some tokens
* `Cursor.Stands` — a run on the way, by what it has passed and the moves since
* `Agenda.Rejects` — a standstill that is a syntax error

## Main Statements

* `Agenda.Moves.unique`, `Agenda.Passes.unique` — moves are determined by the tokens
* `Cursor.Stands.exists_of_steps` — steps pass tokens and make moves
* `exists_passes_of_success`, `exists_rejects_of_syntaxError` — the two ends of a whole parse
-/

namespace SccSharp

namespace Agenda

/-! ### Moves -/

/-- **Moves of an agenda** in front of a token: the agenda before, the events, the agenda after. -/
inductive Moves (next : Token) : Agenda → List Event → Agenda → Prop where
  | refl {agenda : Agenda} : Moves next agenda [] agenda
  | close {o : OpenRule} {agenda last : Agenda} {events : List Event} :
      Moves next agenda events last →
        Moves next (.close o :: agenda) (.closed o.rule :: events) last
  | continuation {k : Continuation} {agenda last : Agenda} {events : List Event} :
      Moves next ((k.body next.kind).map .part ++ agenda) events last →
        Moves next (.part (.continuation k) :: agenda) events last
  | opening {r : Rule} {body : List Part} {agenda last : Agenda} {events : List Event} :
      r.body next.kind = .ok body →
        Moves next (body.map .part ++ .close ⟨r, next.line⟩ :: agenda) events last →
          Moves next (.part (.rule r) :: agenda) (.opened r :: events) last

/-- **An agenda at a standstill** in front of a terminal: nothing is left to do, a terminal is asked
for, or a choice fails. -/
inductive Still (next : Terminal) : Agenda → Prop where
  | done : Still next []
  | terminal {t : Terminal} {agenda : Agenda} : Still next (.part (.terminal t) :: agenda)
  | choice {r : Rule} {c : Choice} {agenda : Agenda} :
      r.body next = .error c → Still next (.part (.rule r) :: agenda)

section Moves

variable {next : Token} {agenda middle last last' : Agenda} {events first second : List Event}

theorem Moves.trans (h : Moves next agenda first middle) (h' : Moves next middle second last) :
    Moves next agenda (first ++ second) last := by
  induction h with
  | refl => exact h'
  | close _ ih => exact .close (ih h')
  | continuation _ ih => exact .continuation (ih h')
  | opening hbody _ ih => exact .opening hbody (ih h')

/-- Moves accept nothing. -/
theorem Moves.acceptedTokens_eq (h : Moves next agenda events last) :
    acceptedTokens events = [] := by
  induction h with
  | refl => rfl
  | close _ ih => exact ih
  | continuation _ ih => exact ih
  | opening _ _ ih => exact ih

/-- There is no move at a standstill. -/
theorem Still.eq_of_moves (hstill : Still next.kind agenda) (h : Moves next agenda events last) :
    events = [] ∧ last = agenda := by
  cases hstill with
  | done | terminal =>
      cases h
      exact ⟨rfl, rfl⟩
  | choice herror =>
      cases h with
      | refl => exact ⟨rfl, rfl⟩
      | opening hbody => cases herror.symm.trans hbody

/-- **There is one standstill** that an agenda moves to, and one way there. -/
theorem Moves.unique (h : Moves next agenda first last) (hlast : Still next.kind last)
    (h' : Moves next agenda second last') (hlast' : Still next.kind last') :
    first = second ∧ last = last' := by
  induction h generalizing second with
  | refl =>
      obtain ⟨rfl, rfl⟩ := hlast.eq_of_moves h'
      exact ⟨rfl, rfl⟩
  | close h ih =>
      cases h' with
      | refl => cases hlast'
      | close h' =>
          obtain ⟨rfl, rfl⟩ := ih hlast h'
          exact ⟨rfl, rfl⟩
  | continuation h ih =>
      cases h' with
      | refl => cases hlast'
      | continuation h' => exact ih hlast h'
  | opening hbody h ih =>
      cases h' with
      | refl =>
          cases hlast' with
          | choice herror => cases herror.symm.trans hbody
      | opening hbody' h' =>
          cases hbody.symm.trans hbody'
          obtain ⟨rfl, rfl⟩ := ih hlast h'
          exact ⟨rfl, rfl⟩

end Moves

/-! ### Passing tokens -/

/-- **Passing tokens**: moves to each of them in turn. -/
inductive Passes : Agenda → List Token → List Event → Agenda → Prop where
  | refl {agenda : Agenda} : Passes agenda [] [] agenda
  | pass {t : Token} {tokens : List Token} {moves events : List Event}
      {agenda rest last : Agenda} :
      Moves t agenda moves (.part (.terminal t.kind) :: rest) → Passes rest tokens events last →
        Passes agenda (t :: tokens) (moves ++ .accepted t :: events) last

namespace Passes

variable {agenda middle last last' : Agenda} {events events' : List Event}
variable {first second tokens : List Token}

theorem append (h : Passes agenda first events middle) (h' : Passes middle second events' last) :
    Passes agenda (first ++ second) (events ++ events') last := by
  induction h with
  | refl => exact h'
  | pass hmoves _ ih =>
      rw [List.append_assoc, List.cons_append]
      exact .pass hmoves (ih h')

theorem of_append (h : Passes agenda (first ++ second) events last) :
    ∃ middle before after, Passes agenda first before middle ∧
      Passes middle second after last := by
  induction first generalizing agenda events with
  | nil => exact ⟨agenda, [], events, .refl, h⟩
  | cons t first ih =>
      cases h with
      | pass hmoves h =>
          obtain ⟨middle, before, after, hfirst, hsecond⟩ := ih h
          exact ⟨middle, _, after, .pass hmoves hfirst, hsecond⟩

/-- What is accepted on the way are the tokens passed. -/
theorem acceptedTokens_eq (h : Passes agenda tokens events last) :
    acceptedTokens events = tokens := by
  induction h with
  | refl => rfl
  | pass hmoves _ ih =>
      rw [acceptedTokens_append, hmoves.acceptedTokens_eq, acceptedTokens_accepted, ih,
        List.nil_append]

/-- Tokens are passed in one way. -/
theorem unique (h : Passes agenda tokens events last) (h' : Passes agenda tokens events' last') :
    events = events' ∧ last = last' := by
  induction h generalizing events' with
  | refl =>
      cases h'
      exact ⟨rfl, rfl⟩
  | pass hmoves _ ih =>
      cases h' with
      | pass hmoves' h' =>
          obtain ⟨rfl, heq⟩ := hmoves.unique .terminal hmoves' .terminal
          cases heq
          obtain ⟨rfl, rfl⟩ := ih h'
          exact ⟨rfl, rfl⟩

end Passes

/-- The agenda of a whole input. -/
def whole (start : Rule) : Agenda :=
  [.part (.rule start), .part (.terminal .eof)]

/-- **A standstill that is a syntax error** at a token, with the events of it: another terminal is
asked for, or a choice fails. -/
inductive Rejects (found : Token) : Agenda → SyntaxError → List Event → Prop where
  | mismatch {t : Terminal} {agenda : Agenda} :
      found.kind ≠ t →
        Rejects found (.part (.terminal t) :: agenda)
          ((SyntaxError.raised (.terminal t found.line) found).withinAll (openRules agenda))
          [.rejected found (.terminal t found.line)]
  | choice {c : Choice} {agenda : Agenda} :
      c.rule.body found.kind = .error c →
        Rejects found (.part (.rule c.rule) :: agenda)
          ((SyntaxError.raised (.choice c found.line) found).withinAll
            (⟨c.rule, found.line⟩ :: openRules agenda))
          [.opened c.rule, .rejected found (.choice c found.line)]

/-- A syntax error is a standstill. -/
theorem Rejects.still {found : Token} {agenda : Agenda} {e : SyntaxError} {events : List Event}
    (h : Rejects found agenda e events) : Still found.kind agenda := by
  cases h with
  | mismatch => exact .terminal
  | choice herror => exact .choice herror

/-- A syntax error is about the token found. -/
theorem Rejects.found_eq {found : Token} {agenda : Agenda} {e : SyntaxError} {events : List Event}
    (h : Rejects found agenda e events) : e.found = found := by
  cases h <;> rfl

/-- No token is accepted with a syntax error. -/
theorem Rejects.acceptedTokens_eq {found : Token} {agenda : Agenda} {e : SyntaxError}
    {events : List Event} (h : Rejects found agenda e events) : acceptedTokens events = [] := by
  cases h <;> rfl

end Agenda

/-! ### Runs -/

namespace Cursor

variable {σ ε : Type}

/-- **Where a run stands**: it has passed some tokens and has made some moves by its lookahead. -/
structure Stands (c : Cursor σ) (start : Rule) (agenda : Agenda) (passed moved : List Event)
    (fresh : Agenda) : Prop where
  recorded : c.sink = .record (passed ++ moved).toArray
  passes : Agenda.Passes (.whole start) (acceptedTokens passed) passed fresh
  moves : Agenda.Moves c.lookahead fresh moved agenda

namespace Stands

variable {c d : Cursor σ} {start : Rule} {agenda agenda' fresh : Agenda}
variable {passed moved : List Event} {limit : Option Nat}

/-- One more move. -/
theorem move (h : c.Stands start agenda passed moved fresh) (more : List Event)
    (hlookahead : d.lookahead = c.lookahead) (hsink : d.sink = c.sink.emitAll more)
    (hmove : Agenda.Moves c.lookahead agenda more agenda') :
    d.Stands start agenda' passed (moved ++ more) fresh where
  recorded := by
    rw [hsink, h.recorded, Sink.emitAll_record]
    simp
  passes := h.passes
  moves := by
    rw [hlookahead]
    exact h.moves.trans hmove

/-- One more token. -/
theorem pass {front : Token × σ}
    (h : c.Stands start (.part (.terminal c.lookahead.kind) :: agenda) passed moved fresh) :
    (c.after [c.lookahead] [.accepted c.lookahead] front).Stands start agenda
      (passed ++ (moved ++ [.accepted c.lookahead])) [] agenda where
  recorded := by
    rw [after, h.recorded, Sink.emitAll_record]
    simp
  passes := by
    rw [acceptedTokens_append, acceptedTokens_append, h.moves.acceptedTokens_eq]
    exact h.passes.append (.pass h.moves .refl)
  moves := .refl

variable [Feed σ ε]

/-- **A step passes a token or makes a move.** -/
theorem exists_of_step (h : c.Stands start agenda passed moved fresh)
    (hstep : Step limit c agenda d agenda') :
    ∃ passed' moved' fresh', d.Stands start agenda' passed' moved' fresh' := by
  cases hstep with
  | close => exact ⟨_, _, _, h.move [.closed _] rfl rfl (.close .refl)⟩
  | continuation => exact ⟨_, _, _, h.move [] rfl rfl (.continuation .refl)⟩
  | accept => exact ⟨_, _, _, h.pass⟩
  | opening _ hbody => exact ⟨_, _, _, h.move [.opened _] rfl rfl (.opening hbody .refl)⟩

/-- **Steps pass tokens and make moves.** -/
theorem exists_of_steps (h : c.Stands start agenda passed moved fresh)
    (hsteps : Steps limit c agenda d agenda') :
    ∃ passed' moved' fresh', d.Stands start agenda' passed' moved' fresh' := by
  induction hsteps generalizing passed moved fresh with
  | refl => exact ⟨passed, moved, fresh, h⟩
  | step hstep _ ih =>
      obtain ⟨_, _, _, h'⟩ := h.exists_of_step hstep
      exact ih h'

end Stands

end Cursor

/-! ### Whole parses -/

section Parses

variable {σ ε : Type} [Feed σ ε] {limit : Option Nat} {source : σ} {start : Rule} {a : Analyser σ}

/-- A parse that draws a first token comes to a halt, and stands somewhere there. -/
theorem exists_stands_of_recorded {stop : Option (Stop ε)}
    (h : recorded limit source start = (stop, a))
    (hstop : ∀ e, stop ≠ some (.sourceFailed e)) :
    ∃ (c d : Cursor σ) (agenda fresh : Agenda) (passed moved : List Event),
      c.Stands start agenda passed moved fresh ∧ Cursor.Halts limit c agenda stop d ∧
        a = .started (d.report stop) := by
  rcases recorded_cases limit source start with
    ⟨e, _, -, hfailed⟩ | ⟨t, rest, stop', d, -, hrun, hparse⟩
  · rw [h] at hfailed
    exact absurd (Prod.mk.inj hfailed).1 (hstop e)
  · rw [h] at hparse
    obtain ⟨rfl, rfl⟩ := Prod.mk.inj hparse
    obtain ⟨c, agenda, hsteps, hhalts⟩ := Cursor.run_eq_iff.1 hrun
    have hfirst : (Cursor.first rest t .recording).Stands start (.whole start) [] []
        (.whole start) := ⟨rfl, .refl, .refl⟩
    obtain ⟨passed, moved, fresh, hstands⟩ := hfirst.exists_of_steps hsteps
    exact ⟨c, d, agenda, fresh, passed, moved, hstands, hhalts, rfl⟩

/-- **A success passes all tokens** that it accepts. -/
theorem exists_passes_of_success (h : recorded limit source start = (none, a)) :
    ∃ passed last, Agenda.Passes (.whole start) (acceptedTokens a.sink.events) passed last := by
  obtain ⟨c, d, agenda, fresh, passed, moved, hstands, hhalts, rfl⟩ :=
    exists_stands_of_recorded h nofun
  cases hhalts with
  | done =>
      have hevents : (Analyser.started (c.report (none : Option (Stop ε)))).sink.events =
          passed ++ moved ++ [.succeeded] := by
        rw [Analyser.sink, Cursor.report, Cursor.emit, hstands.recorded, Sink.emit_record_toArray]
        rfl
      refine ⟨passed, fresh, ?_⟩
      rw [hevents, acceptedTokens_concat rfl, acceptedTokens_append,
        hstands.moves.acceptedTokens_eq, List.append_nil]
      exact hstands.passes

/-- **A syntax error is a standstill** that moves by the token found lead to, behind the tokens that
have been passed. -/
theorem exists_rejects_of_syntaxError {e : SyntaxError}
    (h : recorded limit source start = (some (.syntaxError e), a)) :
    ∃ (agenda fresh : Agenda) (passed moved last : List Event),
      a.sink.events = passed ++ moved ++ last ∧
        Agenda.Passes (.whole start) (acceptedTokens a.sink.events) passed fresh ∧
          Agenda.Moves e.found fresh moved agenda ∧ Agenda.Rejects e.found agenda e last := by
  obtain ⟨c, d, agenda, fresh, passed, moved, hstands, hhalts, rfl⟩ :=
    exists_stands_of_recorded h nofun
  have hrejected : ∃ last, Agenda.Rejects c.lookahead agenda e last ∧
      d.sink = .record (passed ++ moved ++ last).toArray := by
    have hrecorded := hstands.recorded
    cases hhalts with
    | mismatch hne =>
        refine ⟨_, .mismatch hne, ?_⟩
        rw [Cursor.emit, hrecorded, Sink.emit_record_toArray]
    | choice _ herror =>
        obtain rfl := Rule.eq_rule_of_body_eq_error herror
        refine ⟨_, .choice herror, ?_⟩
        simp only [Cursor.emit, hrecorded, Sink.emit_record_toArray, List.append_assoc]
        rfl
  obtain ⟨last, hrejects, hsink⟩ := hrejected
  have hevents : (Analyser.started (d.report (some (Stop.syntaxError e : Stop ε)))).sink.events =
      passed ++ moved ++ last := by
    rw [Analyser.sink, Cursor.report, hsink]
    rfl
  have haccepted : acceptedTokens (passed ++ moved ++ last) = acceptedTokens passed := by
    rw [acceptedTokens_append, acceptedTokens_append, hstands.moves.acceptedTokens_eq,
      hrejects.acceptedTokens_eq, List.append_nil, List.append_nil]
  rw [hevents, haccepted, hrejects.found_eq]
  exact ⟨agenda, fresh, passed, moved, last, rfl, hstands.passes, hstands.moves, hrejects⟩

end Parses

end SccSharp
