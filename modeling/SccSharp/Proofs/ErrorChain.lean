import SccSharp.Proofs.Language
import SccSharp.Proofs.Nesting

/-!
# Error chains

The chain of a syntax error and the trace of its run tell the same. The entries of the chain come
from the agenda, where the rules that are open wait to be closed; the trace knows nothing of the
agenda. `Chained` relates the two: the rules that are open are the pending beginnings of the
trace, and each has the line of the token that was the lookahead when it was begun, which is the
token after those accepted before it. Every step preserves that (`Chained.exists_of_step`), so it
holds where a run is stopped by a syntax error.

## Main Definitions

* `Begin.openRule?` — a beginning as a rule that is open, with its line taken from the tokens
* `Cursor.Chained` — open rules and pending beginnings agree
* `Agenda.EofLast` — nothing comes after the sentinel in an agenda

## Main Statements

* `Chained.exists_of_steps` — steps keep open rules and pending beginnings in agreement
* `syntaxError_chain` — the chain of a syntax error is read off the trace
-/

namespace SccSharp

/-! ### Lines of beginnings -/

/-- **A beginning as a rule that is open**: it was begun at the token after those accepted before
it, and has the line of that token. -/
def Begin.openRule? (tokens : List Token) (b : Begin) : Option OpenRule :=
  tokens[(acceptedTokens b.before).length]?.map fun t => ⟨b.rule, t.line⟩

/-- More tokens do not change the line of a beginning. -/
theorem Begin.openRule?_of_prefix {tokens more : List Token} {b : Begin} {o : OpenRule}
    (h : b.openRule? tokens = some o) (hmore : tokens <+: more) :
    b.openRule? more = some o := by
  obtain ⟨later, rfl⟩ := hmore
  obtain ⟨t, ht, rfl⟩ := Option.map_eq_some_iff.1 h
  obtain ⟨hlt, -⟩ := List.getElem?_eq_some_iff.1 ht
  rw [openRule?, List.getElem?_append_left hlt, ht]
  rfl

/-- More tokens do not change the lines of beginnings. -/
theorem Begin.map_openRule?_of_prefix {tokens more : List Token} {begins : List Begin}
    {rules : List OpenRule} (h : rules.map some = begins.map (Begin.openRule? tokens))
    (hmore : tokens <+: more) : rules.map some = begins.map (Begin.openRule? more) := by
  rw [h]
  refine List.map_congr_left ?_
  intro b hmem
  have hsome : b.openRule? tokens ∈ rules.map some := h ▸ List.mem_map_of_mem hmem
  obtain ⟨o, -, ho⟩ := List.mem_map.1 hsome
  rw [← ho, openRule?_of_prefix ho.symm hmore]

section Frames

variable {tokens : List Token} {begins : List Begin} {rules : List OpenRule}

/-- A rule that is open is the one begun. -/
theorem Begin.map_rule_of_openRule? (h : rules.map some = begins.map (Begin.openRule? tokens)) :
    rules.map OpenRule.rule = begins.map Begin.rule := by
  induction begins generalizing rules with
  | nil =>
      obtain rfl := List.map_eq_nil_iff.1 h
      rfl
  | cons b begins ih =>
      obtain ⟨o, rest, rfl, ho, hrest⟩ := List.map_eq_cons_iff.1 h
      obtain ⟨t, -, rfl⟩ := Option.map_eq_some_iff.1 ho.symm
      rw [List.map_cons, List.map_cons, ih hrest]

/-- The entries of open rules carry the labels of the rules begun. -/
theorem Begin.map_context_of_openRule?
    (h : rules.map some = begins.map (Begin.openRule? tokens)) :
    (rules.map OpenRule.frame).map Frame.context = begins.map fun b => b.rule.label := by
  calc (rules.map OpenRule.frame).map Frame.context
      = (rules.map OpenRule.rule).map Rule.label := by
        rw [List.map_map, List.map_map]
        rfl
    _ = begins.map fun b => b.rule.label := by
        rw [map_rule_of_openRule? h, List.map_map]
        rfl

/-- The entries of open rules are those of the beginnings. -/
theorem Begin.map_frame_of_openRule? (h : rules.map some = begins.map (Begin.openRule? tokens)) :
    (rules.map OpenRule.frame).map some =
      begins.map fun b => (b.openRule? tokens).map OpenRule.frame := by
  calc (rules.map OpenRule.frame).map some
      = (rules.map some).map (Option.map OpenRule.frame) := by simp
    _ = begins.map fun b => (b.openRule? tokens).map OpenRule.frame := by
        rw [h, List.map_map]
        rfl

end Frames

/-! ### Open rules and pending beginnings -/

/-- A record of events with one more. -/
theorem Sink.emit_record_toArray (events : List Event) (e : Event) :
    (Sink.record events.toArray).emit e = .record (events ++ [e]).toArray := by
  rw [Sink.emit, List.push_toArray]

namespace Cursor

variable {σ ε : Type}

/-- **Open rules and pending beginnings agree.** -/
structure Chained (c : Cursor σ) (agenda : Agenda) (events : List Event) (begins : List Begin) :
    Prop where
  /-- The events are all that has been recorded. -/
  recorded : c.sink = .record events.toArray
  /-- The beginnings are those without a match. -/
  pending : Pending events begins
  /-- They are the rules the agenda will close, each with the line it was begun on. -/
  rules : (openRules agenda).map some =
    begins.map (Begin.openRule? (acceptedTokens events ++ [c.lookahead]))

namespace Chained

variable {c d : Cursor σ} {agenda agenda' : Agenda} {events : List Event} {begins : List Begin}
variable {limit : Option Nat}

/-- The record after one more event. -/
theorem recorded_emit (h : c.Chained agenda events begins) (e : Event) :
    (c.emit e).sink = .record (events ++ [e]).toArray := by
  rw [emit, h.recorded, Sink.emit_record_toArray]

/-- A rule is opened where it begins. -/
theorem opened {r : Rule} (h : c.Chained (.part (.rule r) :: agenda) events begins)
    (parts : List Part) :
    (c.emit (.opened r)).Chained (parts.map .part ++ .close ⟨r, c.lookahead.line⟩ :: agenda)
      (events ++ [.opened r]) (⟨events, r⟩ :: begins) where
  recorded := h.recorded_emit _
  pending := h.pending.opened r
  rules := by
    have hline : Begin.openRule? (acceptedTokens events ++ [c.lookahead]) ⟨events, r⟩ =
        some ⟨r, c.lookahead.line⟩ := by
      simp [Begin.openRule?]
    have hrules := h.rules
    rw [openRules_part] at hrules
    rw [openRules_append, openRules_parts, openRules_close, List.nil_append, List.map_cons, hrules,
      List.map_cons, acceptedTokens_concat rfl, ← hline]
    rfl

/-- A rule is closed where it ends. -/
theorem closed {o : OpenRule} (h : c.Chained (.close o :: agenda) events begins) :
    ∃ rest, (c.emit (.closed o.rule)).Chained agenda (events ++ [.closed o.rule]) rest := by
  have hrules := h.rules
  rw [openRules_close, List.map_cons] at hrules
  cases hbegins : begins with
  | nil =>
      rw [hbegins] at hrules
      cases hrules
  | cons b rest =>
      rw [hbegins, List.map_cons] at hrules
      -- the rule closed is that of the last beginning, which the ending therefore matches
      obtain ⟨hlast, hrest⟩ := List.cons.inj hrules
      obtain ⟨t, -, rfl⟩ := Option.map_eq_some_iff.1 hlast.symm
      have hpending := h.pending
      rw [hbegins] at hpending
      refine ⟨rest, h.recorded_emit _, hpending.closed, ?_⟩
      rw [acceptedTokens_concat rfl]
      exact hrest

/-- An accepted token and the one drawn after it change no line. -/
theorem accepted (h : c.Chained (.part (.terminal c.lookahead.kind) :: agenda) events begins)
    (front : Token × σ) :
    (c.after [c.lookahead] [.accepted c.lookahead] front).Chained agenda
      (events ++ [.accepted c.lookahead]) begins where
  recorded := h.recorded_emit _
  pending := h.pending.flat rfl
  rules := by
    refine Begin.map_openRule?_of_prefix h.rules ?_
    rw [acceptedTokens_append]
    exact List.prefix_append _ _

variable [Feed σ ε]

/-- **A step keeps open rules and pending beginnings in agreement.** -/
theorem exists_of_step (h : c.Chained agenda events begins)
    (hstep : Step limit c agenda d agenda') :
    ∃ events' begins', d.Chained agenda' events' begins' := by
  cases hstep with
  | close =>
      obtain ⟨rest, hrest⟩ := h.closed
      exact ⟨_, rest, hrest⟩
  | continuation =>
      refine ⟨events, begins, h.recorded, h.pending, ?_⟩
      rw [openRules_append, openRules_parts, List.nil_append]
      exact h.rules
  | accept => exact ⟨_, begins, h.accepted _⟩
  | opening => exact ⟨_, _, h.opened _⟩

/-- **Steps keep open rules and pending beginnings in agreement.** -/
theorem exists_of_steps (h : c.Chained agenda events begins)
    (hsteps : Steps limit c agenda d agenda') :
    ∃ events' begins', d.Chained agenda' events' begins' := by
  induction hsteps generalizing events begins with
  | refl => exact ⟨events, begins, h⟩
  | step hstep _ ih =>
      obtain ⟨events', begins', h'⟩ := h.exists_of_step hstep
      exact ih h'

end Chained

end Cursor

/-! ### The sentinel comes last -/

/-- **Nothing comes after the sentinel** in an agenda. -/
def Agenda.EofLast : Agenda → Prop
  | [] => True
  | .part (.terminal .eof) :: agenda => agenda = []
  | _ :: agenda => EofLast agenda

/-- Parts without the sentinel may be put in front. -/
theorem Agenda.EofLast.append {agenda : Agenda} (h : EofLast agenda) {parts : List Part}
    (hparts : .terminal .eof ∉ parts) : EofLast (parts.map .part ++ agenda) := by
  induction parts with
  | nil => exact h
  | cons p parts ih =>
      have hrest := ih fun hmem => hparts (List.mem_cons_of_mem _ hmem)
      rw [List.map_cons, List.cons_append, EofLast]
      · exact hrest
      · rintro heq
        cases heq
        exact hparts List.mem_cons_self

/-- What is left of an agenda has nothing after the sentinel either. -/
theorem Agenda.EofLast.tail {task : Task} {agenda : Agenda} (h : EofLast (task :: agenda)) :
    EofLast agenda := by
  by_cases htask : task = .part (.terminal .eof)
  · subst htask
    have hnil : agenda = [] := h
    subst hnil
    trivial
  · rwa [EofLast] at h
    exact htask

namespace Cursor

variable {σ ε : Type} [Feed σ ε] {limit : Option Nat} {c d : Cursor σ} {agenda agenda' : Agenda}

/-- Steps put nothing after the sentinel. -/
theorem Steps.eofLast (h : Steps limit c agenda d agenda') (hlast : agenda.EofLast) :
    agenda'.EofLast := by
  induction h with
  | refl => exact hlast
  | step hstep _ ih =>
      refine ih ?_
      cases hstep with
      | close => exact hlast
      | continuation => exact hlast.tail.append (Continuation.eof_not_mem_body _ _)
      | accept => exact hlast.tail
      | opening _ hbody =>
          refine Agenda.EofLast.append ?_ (Rule.eof_not_mem_body hbody)
          exact hlast.tail

/-- A rejected token changes nothing. -/
theorem Chained.rejected {events : List Event} {begins : List Begin}
    (h : c.Chained agenda events begins) (t : Token) (expected : Expectation) :
    (c.emit (.rejected t expected)).Chained agenda (events ++ [.rejected t expected]) begins where
  recorded := h.recorded_emit _
  pending := h.pending.flat rfl
  rules := by
    rw [acceptedTokens_concat rfl]
    exact h.rules

/-- **A syntax error is raised with the rules that are open** where the run stops, at the lookahead
and right after the event of it. -/
theorem Chained.exists_of_syntaxError {e : SyntaxError} {events : List Event} {begins : List Begin}
    (h : c.Chained agenda events begins) (hlast : agenda.EofLast)
    (hrun : c.run limit agenda = (some (.syntaxError e), d)) :
    ∃ rest events' begins' expected,
      d.Chained rest (events' ++ [.rejected d.lookahead expected]) begins' ∧
        e = (SyntaxError.raised expected d.lookahead).withinAll (openRules rest) ∧
        (∃ what, expected.text = what ++ " at line " ++ toString d.lookahead.line) ∧
        ∀ line, expected = .terminal .eof line → openRules rest = [] := by
  obtain ⟨c', agenda', hsteps, hhalts⟩ := run_eq_iff.1 hrun
  obtain ⟨events', begins', hchained⟩ := h.exists_of_steps hsteps
  have hlast' := hsteps.eofLast hlast
  cases hhalts with
  | @mismatch t agenda hne =>
      refine ⟨.part (.terminal t) :: agenda, events', begins', .terminal t c'.lookahead.line,
        hchained.rejected _ _, rfl, ⟨"'" ++ t.name ++ "'", ?_⟩, ?_⟩
      · have hsplit : "' at line " = "'" ++ " at line " := by decide
        show "'" ++ t.name ++ "' at line " ++ toString c'.lookahead.line = _
        rw [hsplit, ← String.append_assoc]
        rfl
      · intro line hexpected
        cases hexpected
        -- nothing is left to do after the sentinel, so no rule is left to close
        have hnil : agenda = [] := hlast'
        rw [hnil]
        rfl
  | @choice r alternatives agenda _ hbody =>
      refine ⟨.close ⟨r, c'.lookahead.line⟩ :: agenda, _, _, .choice alternatives c'.lookahead.line,
        (hchained.opened []).rejected _ _, rfl, ⟨alternatives.alternatives, rfl⟩, ?_⟩
      intro line hexpected
      cases hexpected

end Cursor

/-! ### The chain of a syntax error -/

/-- **The chain of a syntax error is the stack of open rules**, and the trace shows it. The entries
around the origin are the beginnings that no ending matches, the last one first, each with the line
of the token that was ahead when it was begun; there are none if the sentinel was expected. The
origin has the line of the token rejected, which is the lookahead, and the last event is its
rejection, with the same expectation. -/
theorem syntaxError_chain {limit : Option Nat} {q : TokenQueue} {r : Rule} {e : SyntaxError}
    {a : Analyser TokenQueue}
    (h : (Analyser.fresh q .recording).parse limit r = (some (.syntaxError e), a)) :
    (∃ begins : List Begin,
      (∀ b : Begin, b.Unmatched a.sink.events ↔ b ∈ begins) ∧
      (begins.Pairwise fun later earlier => earlier.before.length < later.before.length) ∧
      e.rules = begins.map (fun b => b.rule.label) ∧
      e.enclosing.map some = begins.map (fun b =>
        (b.openRule? (q.body ++ [q.sentinel])).map OpenRule.frame) ∧
      ∀ line, e.expected = .terminal .eof line → begins = []) ∧
    e.frames = ⟨e.expected.text, e.found.line,
      "expected " ++ e.expected.text ++ ", found: '" ++ e.found.text ++ "'"⟩ :: e.enclosing ∧
    a.sink.events.getLast? = some (.rejected e.found e.expected) ∧
    (∃ what, e.expected.text = what ++ " at line " ++ toString e.found.line) ∧
    a.lookahead? = some e.found := by
  have hinput := (fails_of_parse h).2
  obtain ⟨d, hrun, rfl⟩ := parse_eq_some_iff.1 h
  have hstart : (q.cursor .recording).Chained [.part (.rule r), .part (.terminal .eof)] [] [] :=
    ⟨rfl, .balanced .nil, rfl⟩
  have hlast : Agenda.EofLast [.part (.rule r), .part (.terminal .eof)] := rfl
  obtain ⟨rest, events, begins, expected, hchained, rfl, htext, hnone⟩ :=
    hstart.exists_of_syntaxError hlast hrun
  have hevents : (Analyser.started d).sink.events =
      events ++ [.rejected d.lookahead expected] := by
    rw [Analyser.sink, hchained.recorded]
    rfl
  rw [hevents] at hinput ⊢
  have hrules := Begin.map_openRule?_of_prefix hchained.rules hinput
  have hnil : ∀ line, expected = .terminal .eof line → begins = [] := by
    intro line hexpected
    rw [hnone line hexpected, List.map_nil] at hrules
    exact List.map_eq_nil_iff.1 hrules.symm
  refine ⟨⟨begins, hchained.pending.unmatched_iff, hchained.pending.pairwise, ?_, ?_, hnil⟩, rfl,
    List.getLast?_concat, htext, rfl⟩
  · exact Begin.map_context_of_openRule? hrules
  · exact Begin.map_frame_of_openRule? hrules

/-- The chain of the second comma. -/
theorem syntaxError_chain_twoCommas :
    ∃ e a, (Analyser.fresh twoCommas .recording).parse none .argumentList =
        (some (.syntaxError e), a) ∧
      a.sink.events.getLast? = some (.rejected e.found e.expected) ∧
      a.lookahead? = some e.found := by
  obtain ⟨e, a, hparse⟩ := exists_syntaxError_twoCommas
  obtain ⟨-, -, hlast, -, hahead⟩ := syntaxError_chain hparse
  exact ⟨e, a, hparse, hlast, hahead⟩

end SccSharp
