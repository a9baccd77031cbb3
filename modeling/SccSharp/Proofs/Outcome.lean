import SccSharp.Proofs.ErrorChain

/-!
# How a parse ends

Every parse ends in one of four ways, over any source and on any call stack. It succeeds, and the
last event says so; it meets a syntax error, and the last event is the rejection of the token found;
its source fails, and no event tells of it; or it is given up for want of room. No event tells of
that either, but it may happen while the frames are added to a syntax error, and then the rejection
has been emitted and is the last event. No event before the last one tells of an outcome.

Three things are kept by every step on the way there (`Cursor.Underway`): the pending beginnings
are the rules that are open, every ending so far has named the latest beginning without a match,
and no event has told of an outcome. How the run then ends decides the rest.

## Main Definitions

* `Feed.Breaks` — a source that fails at some draw
* `Outcome` — the ends of a parse, with what its trace shows of each
* `OpenAtEnd` — the rules that are open where a parse ends
* `recordedOn`, `recorded` — a whole parse with its trace, on a call stack and under a limit

## Main Statements

* `Cursor.Underway.exists_of_steps` — steps keep the discipline and tell of no outcome
* `parse_outcome` — at most one outcome, and last
-/

namespace SccSharp

section

variable {σ ε : Type} [Feed σ ε]

/-! ### Sources that fail -/

/-- **A failure of a source**: one of its draws gives `e`, and those before it gave tokens. -/
inductive Feed.Breaks : σ → ε → Prop where
  | now {s s' : σ} {e : ε} : Feed.draw s = (.error e, s') → Breaks s e
  | later {s s' : σ} {t : Token} {e : ε} : Feed.draw s = (.ok t, s') → Breaks s' e → Breaks s e

/-- A source fails if the feed it leads to does. -/
theorem Feed.Leads.breaks {front last : Token × σ} {tokens : List Token} {e : ε}
    (h : Leads front tokens last) (hlast : Breaks last.2 e) : Breaks front.2 e := by
  induction h with
  | refl => exact hlast
  | pass hdraw _ ih => exact .later hdraw (ih hlast)

/-! ### Ends of a parse -/

/-- **The ends of a parse** with its trace. Success is the last event, after balanced ones; a
syntax error is the last event, with the token and the expectation of the error; a failure is one
of the source. A parse is given up only where its call stack is full, and its trace tells of no
outcome then, unless there is no room for the frames of a rejection that has been emitted. No other
event tells of an outcome. -/
inductive Outcome (stack : CallStack) (source : σ) : Option (Stop ε) → List Event → Prop where
  | succeeded {events : List Event} :
      (∀ e ∈ events, e.isOutcome = false) → Balanced events →
        Outcome stack source none (events ++ [.succeeded])
  | syntaxError {events : List Event} {error : SyntaxError} :
      (∀ e ∈ events, e.isOutcome = false) →
        Outcome stack source (some (.syntaxError error))
          (events ++ [.rejected error.found error.expected])
  | sourceFailed {events : List Event} {failure : ε} :
      (∀ e ∈ events, e.isOutcome = false) → Feed.Breaks source failure →
        Outcome stack source (some (.sourceFailed failure)) events
  | tooDeep {events : List Event} {error : DepthError} :
      (∀ e ∈ events, e.isOutcome = false) → (∃ call count, stack.room call count = false) →
        Outcome stack source (some (.tooDeep error)) events
  | unreported {events : List Event} {error : DepthError} {expected : Expectation} :
      (∀ e ∈ events, e.isOutcome = false) → (∃ count, stack.room .framing count = false) →
        Outcome stack source (some (.tooDeep error)) (events ++ [.rejected error.token expected])

/-- Only the last event of a parse tells of an outcome. -/
theorem Outcome.undecided {stack : CallStack} {source : σ} {stop : Option (Stop ε)}
    {events : List Event} (h : Outcome stack source stop events) :
    ∀ e ∈ events.dropLast, e.isOutcome = false := by
  cases h with
  | succeeded hundecided | syntaxError hundecided | unreported hundecided =>
      rw [List.dropLast_concat]
      exact hundecided
  | sourceFailed hundecided | tooDeep hundecided =>
      exact fun e hmem => hundecided e ((List.dropLast_prefix events).subset hmem)

/-- A parse that is given up because of a limit tells of no outcome. -/
theorem Outcome.undecided_of_limited {limit : Option Nat} {source : σ} {error : DepthError}
    {events : List Event}
    (h : Outcome (.limited limit) source (some (.tooDeep error) : Option (Stop ε)) events) :
    ∀ e ∈ events, e.isOutcome = false := by
  cases h with
  | tooDeep hundecided => exact hundecided
  | unreported _ hroom =>
      obtain ⟨_, hfull⟩ := hroom
      cases hfull

namespace Cursor

/-- The cursor after the first draw. -/
def first (feed : σ) (lookahead : Token) (sink : Sink) : Cursor σ where
  feed := feed
  lookahead := lookahead
  sink := sink

/-- The cursor that a run leaves, with the event of success if nothing stopped it. -/
def report (c : Cursor σ) : Option (Stop ε) → Cursor σ
  | none => c.emit .succeeded
  | some _ => c

/-- **The rules open where a run ends**, innermost first. A rule that finds no production is open
already, since the choice is made inside it. -/
def openAt (stack : CallStack) : Agenda → List Rule
  | .part (.rule r) :: agenda =>
      if stack.room .opening (openRules agenda).length then
        r :: (openRules agenda).map OpenRule.rule
      else (openRules agenda).map OpenRule.rule
  | agenda => (openRules agenda).map OpenRule.rule

end Cursor

/-- **The rules open where a parse ends**, innermost first: none if the first draw fails, and
otherwise those open where its run ends. -/
inductive OpenAtEnd (stack : CallStack) (source : σ) (start : Rule) : List Rule → Prop where
  | unstarted {failure : ε} {rest : σ} :
      Feed.draw source = (.error failure, rest) → OpenAtEnd stack source start []
  | ended {t : Token} {rest : σ} {c d : Cursor σ} {agenda : Agenda} {stop : Option (Stop ε)} :
      Feed.draw source = (.ok t, rest) →
        Cursor.StepsOn stack (.first rest t .recording)
          [.part (.rule start), .part (.terminal .eof)] c agenda →
        Cursor.EndsOn stack c agenda stop d →
          OpenAtEnd stack source start (Cursor.openAt stack agenda)

/-! ### Sessions over any source -/

section

variable {stack : CallStack} {limit : Option Nat} {source rest : σ} {sink : Sink} {start : Rule}

/-- A session whose first draw fails stays fresh. -/
theorem parseOn_of_draw_error {failure : ε} (start : Rule)
    (h : Feed.draw source = (.error failure, rest)) :
    (Analyser.fresh source sink).parseOn stack start =
      (some (.sourceFailed failure), .fresh rest sink) := by
  rw [Analyser.parseOn, Analyser.start, h]

/-- A session whose first draw gives a token is a run from it. -/
theorem parseOn_of_run {t : Token} {stop : Option (Stop ε)} {d : Cursor σ}
    (h : Feed.draw source = (.ok t, rest))
    (hrun : (Cursor.first rest t sink).runOn stack
      [.part (.rule start), .part (.terminal .eof)] = (stop, d)) :
    (Analyser.fresh source sink).parseOn stack start = (stop, .started (d.report stop)) := by
  have hparse : (Cursor.first rest t sink).parseOn stack start = (stop, d.report stop) := by
    rw [Cursor.parseOn, hrun]
    cases stop with
    | none => rfl
    | some stop => rfl
  rw [Analyser.parseOn, Analyser.start, h]
  exact congrArg (fun result => (result.1, Analyser.started result.2)) hparse

/-- Under a limit, a session whose first draw fails stays fresh. -/
theorem parse_of_draw_error {failure : ε} (start : Rule)
    (h : Feed.draw source = (.error failure, rest)) :
    (Analyser.fresh source sink).parse limit start =
      (some (.sourceFailed failure), .fresh rest sink) :=
  parseOn_of_draw_error start h

/-- Under a limit, a session whose first draw gives a token is a run from it. -/
theorem parse_of_run {t : Token} {stop : Option (Stop ε)} {d : Cursor σ}
    (h : Feed.draw source = (.ok t, rest))
    (hrun : (Cursor.first rest t sink).run limit [.part (.rule start), .part (.terminal .eof)] =
      (stop, d)) :
    (Analyser.fresh source sink).parse limit start = (stop, .started (d.report stop)) :=
  parseOn_of_run h hrun

end

/-- **A whole parse** of a source on a call stack, with its trace recorded. -/
def recordedOn (stack : CallStack) (source : σ) (start : Rule) :
    Option (Stop ε) × Analyser σ :=
  (Analyser.fresh source .recording).parseOn stack start

/-- **A whole parse** under a limit, with its trace recorded. -/
def recorded (limit : Option Nat) (source : σ) (start : Rule) :
    Option (Stop ε) × Analyser σ :=
  (Analyser.fresh source .recording).parse limit start

/-- **A parse starts with a draw**: it fails, or the parse is a run from the token drawn. -/
theorem recordedOn_cases (stack : CallStack) (source : σ) (start : Rule) :
    (∃ e rest, Feed.draw source = (.error e, rest) ∧
      recordedOn stack source start = (some (.sourceFailed e), .fresh rest .recording)) ∨
    ∃ t rest stop d, Feed.draw source = (.ok t, rest) ∧
      (Cursor.first rest t .recording).runOn stack
        [.part (.rule start), .part (.terminal .eof)] = (stop, d) ∧
      recordedOn stack source start = (stop, .started (d.report stop)) := by
  cases hfirst : Feed.draw source with
  | mk outcome rest =>
      cases outcome with
      | error e => exact .inl ⟨e, rest, rfl, parseOn_of_draw_error start hfirst⟩
      | ok t => exact .inr ⟨t, rest, _, _, rfl, rfl, parseOn_of_run hfirst rfl⟩

/-- The same under a limit. -/
theorem recorded_cases (limit : Option Nat) (source : σ) (start : Rule) :
    (∃ e rest, Feed.draw source = (.error e, rest) ∧
      recorded limit source start = (some (.sourceFailed e), .fresh rest .recording)) ∨
    ∃ t rest stop d, Feed.draw source = (.ok t, rest) ∧
      (Cursor.first rest t .recording).run limit [.part (.rule start), .part (.terminal .eof)] =
        (stop, d) ∧
      recorded limit source start = (stop, .started (d.report stop)) :=
  recordedOn_cases (.limited limit) source start

end

/-! ### Runs on the way -/

namespace Cursor

variable {σ ε : Type}

/-- **A run on the way**: open rules and pending beginnings agree, the events keep the stack
discipline, and none of them tells of an outcome. -/
structure Underway (c : Cursor σ) (agenda : Agenda) (events : List Event) (begins : List Begin) :
    Prop extends Chained c agenda events begins where
  disciplined : Disciplined events
  undecided : ∀ e ∈ events, e.isOutcome = false

/-- A rule that is about to be closed was begun last. -/
theorem Chained.exists_latest {c : Cursor σ} {o : OpenRule} {agenda : Agenda} {events : List Event}
    {begins : List Begin} (h : c.Chained (.close o :: agenda) events begins) :
    ∃ b : Begin, b.rule = o.rule ∧ b.Latest events := by
  have hrules := Begin.map_rule_of_openRule? h.rules
  rw [openRules_close, List.map_cons] at hrules
  obtain ⟨b, rest, rfl, hrule, -⟩ := List.map_eq_cons_iff.1 hrules.symm
  exact ⟨b, hrule, h.pending.latest⟩

namespace Underway

variable {c d : Cursor σ} {agenda agenda' : Agenda} {events : List Event}
variable {begins begins' : List Begin} {limit : Option Nat}

/-- One more event that tells of no outcome. -/
theorem concat {e : Event} (h : c.Underway agenda events begins)
    (hchained : d.Chained agenda' (events ++ [e]) begins')
    (hclosed : ∀ r, e = .closed r → ∃ b : Begin, b.rule = r ∧ b.Latest events)
    (hundecided : e.isOutcome = false) : d.Underway agenda' (events ++ [e]) begins' where
  toChained := hchained
  disciplined := h.disciplined.concat hclosed
  undecided := by
    intro e' hmem
    rcases List.mem_append.1 hmem with hmem | hmem
    · exact h.undecided e' hmem
    · rw [List.mem_singleton.1 hmem]
      exact hundecided

variable [Feed σ ε]

/-- **A step keeps a run on the way.** -/
theorem exists_of_step (h : c.Underway agenda events begins)
    (hstep : Step limit c agenda d agenda') :
    ∃ events' begins', d.Underway agenda' events' begins' := by
  cases hstep with
  | close =>
      obtain ⟨rest, hrest⟩ := h.closed
      refine ⟨_, rest, h.concat hrest ?_ rfl⟩
      intro r hr
      cases hr
      exact h.exists_latest
  | continuation =>
      refine ⟨events, begins, ⟨h.recorded, h.pending, ?_⟩, h.disciplined, h.undecided⟩
      rw [openRules_append, openRules_parts, List.nil_append]
      exact h.rules
  | accept => exact ⟨_, begins, h.concat (h.accepted _) nofun rfl⟩
  | opening => exact ⟨_, _, h.concat (h.opened _) nofun rfl⟩

/-- **Steps keep a run on the way.** -/
theorem exists_of_steps (h : c.Underway agenda events begins)
    (hsteps : Steps limit c agenda d agenda') :
    ∃ events' begins', d.Underway agenda' events' begins' := by
  induction hsteps generalizing events begins with
  | refl => exact ⟨events, begins, h⟩
  | step hstep _ ih =>
      obtain ⟨events', begins', h'⟩ := h.exists_of_step hstep
      exact ih h'

/-- Nothing is pending where nothing is left to do. -/
theorem balanced_of_nil (h : c.Underway [] events begins) : begins = [] ∧ Balanced events := by
  have hnil : begins = [] := List.map_eq_nil_iff.1 h.rules.symm
  have hpending := h.pending
  rw [hnil] at hpending
  cases hpending with
  | balanced hbalanced => exact ⟨hnil, hbalanced⟩

/-- The beginnings that are pending are those of the rules that are open. -/
theorem map_rule (h : c.Underway agenda events begins) :
    begins.map Begin.rule = (openRules agenda).map OpenRule.rule :=
  (Begin.map_rule_of_openRule? h.rules).symm

end Underway

/-- Where there is no room for all frames, some frame has none. -/
theorem exists_framing {stack : CallStack} {count : Nat} (h : stack.unwinds count = false) :
    ∃ count, stack.room .framing count = false := by
  induction count with
  | zero => cases h
  | succ count ih =>
      rw [CallStack.unwinds, Bool.and_eq_false_iff] at h
      rcases h with hfull | hrest
      · exact ⟨_, hfull⟩
      · exact ih hrest

variable [Feed σ ε] {stack : CallStack}

/-- **A run on the way that halts has one outcome**, which is the last event, and leaves the rules
unended that are open. -/
theorem Underway.exists_outcome_of_halts {c d : Cursor σ} {agenda : Agenda} {events : List Event}
    {begins : List Begin} {stop : Option (Stop ε)} {source : σ}
    (h : c.Underway agenda events begins) (hroom : HasRoom stack c agenda)
    (hhalts : Halts none c agenda stop d)
    (hsource : ∀ failure, Feed.Breaks c.feed failure → Feed.Breaks source failure) :
    ∃ events' begins', (d.report stop).sink = .record events'.toArray ∧
      Outcome stack source stop events' ∧ Disciplined events' ∧ Pending events' begins' ∧
      begins'.map Begin.rule = openAt stack agenda := by
  cases hhalts with
  | done =>
      obtain ⟨rfl, hbalanced⟩ := h.balanced_of_nil
      exact ⟨_, _, h.recorded_emit _, .succeeded h.undecided hbalanced,
        h.disciplined.concat nofun, h.pending.flat rfl, rfl⟩
  | mismatch =>
      exact ⟨_, _, h.recorded_emit _, .syntaxError h.undecided,
        h.disciplined.concat nofun, h.pending.flat rfl, h.map_rule⟩
  | starved hdraw =>
      have haccepted := h.concat (h.accepted c.front) nofun rfl
      exact ⟨_, _, haccepted.recorded, .sourceFailed haccepted.undecided (hsource _ (.now hdraw)),
        haccepted.disciplined, haccepted.pending, h.map_rule⟩
  | @choice r alternatives agenda _ hbody =>
      have hopen : stack.room .opening (openRules agenda).length = true :=
        eq_true_of_ne_false fun hfull => hroom _ (.opening hfull)
      have hopened := h.concat (h.opened []) nofun rfl
      refine ⟨_, _, hopened.recorded_emit _, .syntaxError hopened.undecided,
        hopened.disciplined.concat nofun, hopened.pending.flat rfl, ?_⟩
      rw [openAt, if_pos hopen, List.map_cons, h.map_rule, openRules_part]
  | tooDeep hclosed => cases hclosed

/-- A rejection that is not told of in full. -/
theorem Underway.exists_outcome_of_unreported {c d : Cursor σ} {agenda : Agenda}
    {events : List Event} {begins : List Begin} {source : σ} {expected : Expectation} {count : Nat}
    (h : c.Underway agenda events begins) (hreport : Unreported stack count c expected d) :
    ∃ events', d.sink = .record events'.toArray ∧
      Outcome stack source (some (c.giveUp : Stop ε)) events' ∧ Disciplined events' ∧
      Pending events' begins := by
  cases hreport with
  | event hfull =>
      exact ⟨events, h.recorded, .tooDeep h.undecided ⟨_, _, hfull⟩, h.disciplined, h.pending⟩
  | frames _ hfull =>
      exact ⟨_, h.recorded_emit _, .unreported h.undecided (exists_framing hfull),
        h.disciplined.concat nofun, h.pending.flat rfl⟩

/-- **A run on the way that is given up** has no outcome, or a rejection for the last event. -/
theorem Underway.exists_outcome_of_overflows {c d : Cursor σ} {agenda : Agenda}
    {events : List Event} {begins : List Begin} {source : σ} (h : c.Underway agenda events begins)
    (hover : Overflows stack c agenda d) :
    ∃ events' begins', d.sink = .record events'.toArray ∧
      Outcome stack source (some (c.giveUp : Stop ε)) events' ∧ Disciplined events' ∧
      Pending events' begins' ∧ begins'.map Begin.rule = openAt stack agenda := by
  have hfull {call : Call} {count : Nat} (hroom : stack.room call count = false) :
      Outcome stack source (some (c.giveUp : Stop ε)) events :=
    .tooDeep h.undecided ⟨_, _, hroom⟩
  cases hover with
  | closing hroom =>
      exact ⟨_, _, h.recorded, hfull hroom, h.disciplined, h.pending, h.map_rule⟩
  | opening hroom =>
      refine ⟨_, _, h.recorded, hfull hroom, h.disciplined, h.pending, ?_⟩
      rw [openAt, hroom, if_neg Bool.false_ne_true, h.map_rule, openRules_part]
  | accepting hroom =>
      exact ⟨_, _, h.recorded, hfull hroom, h.disciplined, h.pending, h.map_rule⟩
  | drawing _ hdraw hroom =>
      have haccepted := h.concat (h.accepted c.front) nofun rfl
      exact ⟨_, _, haccepted.recorded, .tooDeep haccepted.undecided ⟨_, _, hroom⟩,
        haccepted.disciplined, haccepted.pending, h.map_rule⟩
  | mismatch _ hreport =>
      obtain ⟨events', hrecord, houtcome, hdisciplined, hpending⟩ :=
        h.exists_outcome_of_unreported hreport
      exact ⟨events', begins, hrecord, houtcome, hdisciplined, hpending, h.map_rule⟩
  | @choice _ r alternatives agenda hopen _ hreport =>
      have hopened := h.concat (h.opened []) nofun rfl
      obtain ⟨events', hrecord, houtcome, hdisciplined, hpending⟩ :=
        hopened.exists_outcome_of_unreported hreport
      refine ⟨events', _, hrecord, houtcome, hdisciplined, hpending, ?_⟩
      rw [openAt, if_pos hopen, List.map_cons, h.map_rule, openRules_part]

/-- **A run on the way ends with one outcome at most.** -/
theorem Underway.exists_outcome {c d : Cursor σ} {agenda : Agenda} {events : List Event}
    {begins : List Begin} {stop : Option (Stop ε)} {source : σ}
    (h : c.Underway agenda events begins) (hends : EndsOn stack c agenda stop d)
    (hsource : ∀ failure, Feed.Breaks c.feed failure → Feed.Breaks source failure) :
    ∃ events' begins', (d.report stop).sink = .record events'.toArray ∧
      Outcome stack source stop events' ∧ Disciplined events' ∧ Pending events' begins' ∧
      begins'.map Begin.rule = openAt stack agenda := by
  cases hends with
  | halts hroom hhalts => exact h.exists_outcome_of_halts hroom hhalts hsource
  | overflows hover => exact h.exists_outcome_of_overflows hover

end Cursor

/-! ### At most one outcome -/

section

variable {σ ε : Type} [Feed σ ε]

/-- A parse has one outcome at most, and its trace keeps the discipline. -/
theorem recordedOn_outcome (stack : CallStack) (source : σ) (start : Rule) :
    Outcome stack source (recordedOn stack source start).1
        (recordedOn stack source start).2.sink.events ∧
      Disciplined (recordedOn stack source start).2.sink.events ∧
      ∃ begins : List Begin, Pending (recordedOn stack source start).2.sink.events begins ∧
        OpenAtEnd stack source start (begins.map Begin.rule) := by
  rcases recordedOn_cases stack source start with
    ⟨failure, rest, hfirst, hparse⟩ | ⟨t, rest, stop, d, hfirst, hrun, hparse⟩
  · rw [hparse]
    have houtcome : Outcome stack source (some (.sourceFailed failure)) [] :=
      .sourceFailed (List.forall_mem_nil _) (.now hfirst)
    exact ⟨houtcome, .nil, [], .balanced .nil, .unstarted hfirst⟩
  · rw [hparse]
    have hstart : (Cursor.first rest t .recording).Underway
        [.part (.rule start), .part (.terminal .eof)] [] [] :=
      ⟨⟨rfl, .balanced .nil, rfl⟩, .nil, List.forall_mem_nil _⟩
    obtain ⟨c, agenda, hsteps, hends⟩ := Cursor.runOn_eq_iff.1 hrun
    obtain ⟨events, begins, hunderway⟩ := hstart.exists_of_steps hsteps.steps
    -- what fails on the way is what the source leads to
    obtain ⟨_, hleads, -⟩ := hsteps.steps.exists_after
    have hsource : ∀ failure, Feed.Breaks c.feed failure → Feed.Breaks source failure :=
      fun failure hbreaks => .later hfirst (hleads.breaks hbreaks)
    obtain ⟨events', begins', hrecord, houtcome, hdisciplined, hpending, hrules⟩ :=
      hunderway.exists_outcome hends hsource
    have hevents : (Analyser.started (d.report stop)).sink.events = events' := by
      rw [Analyser.sink, hrecord]
      rfl
    dsimp only
    rw [hevents]
    exact ⟨houtcome, hdisciplined, begins', hpending, hrules ▸ .ended hfirst hsteps hends⟩

/-- A parse that its source fails has met a draw that failed. -/
theorem breaks_of_recordedOn {stack : CallStack} {source : σ} {start : Rule} {e : ε}
    (h : (recordedOn stack source start).1 = some (.sourceFailed e)) : Feed.Breaks source e := by
  obtain ⟨houtcome, -⟩ := recordedOn_outcome stack source start
  rw [h] at houtcome
  generalize (recordedOn stack source start).2.sink.events = events at houtcome
  cases houtcome with
  | sourceFailed _ hbreaks => exact hbreaks

end

/-! ### Nests of parentheses -/

/-- A factor that begins with a parenthesis is an expression in parentheses. -/
theorem Rule.factor_body_leftParenthesis {kind : Terminal} (h : kind = .leftParenthesis) :
    factor.body kind = .ok [.terminal kind, .rule .expression, .terminal .rightParenthesis] := by
  rw [h]
  rfl

namespace Cursor

variable {σ ε : Type} [Feed σ ε] (stack : CallStack) {c : Cursor σ} (agenda : Agenda)

/-- A parenthesis in a factor opens two rules, and another factor is to come. -/
theorem exists_stepsOn_leftParenthesis {next : Token} {feed : σ}
    (hahead : c.lookahead.kind = .leftParenthesis) (hdraw : Feed.draw c.feed = (.ok next, feed))
    (hopen : stack.room .opening (openRules agenda).length = true)
    (haccept : stack.room .accepting ((openRules agenda).length + 1) = true)
    (hroom : stack.room (.ofDraw (.ok next : Except ε Token)) ((openRules agenda).length + 1) =
      true)
    (hopen' : stack.room .opening ((openRules agenda).length + 1) = true) :
    ∃ d agenda', StepsOn stack c (.part (.rule .factor) :: agenda) d
        (.part (.rule .factor) :: agenda') ∧ d.front = (next, feed) ∧
      (openRules agenda').length = (openRules agenda).length + 2 := by
  have hbody := Rule.factor_body_leftParenthesis hahead
  exact ⟨_, _, .step (hasRoom_of_body hopen hbody) (.opening (mayOpen_none _) hbody)
    (.step (hasRoom_of_draw haccept hdraw hroom) (.accept hdraw)
      (.step (hasRoom_of_body hopen' rfl) (.opening (mayOpen_none _) rfl) .refl)), rfl, rfl⟩

/-- **Parentheses nest** as far as there is room, two rules each. -/
theorem exists_stepsOn_parentheses {tokens : List Token} {front : Token × σ}
    (hleads : Feed.Leads c.front tokens front) (hkinds : ∀ t ∈ tokens, t.kind = .leftParenthesis)
    (hlast : front.1.kind ≠ .eof)
    (hroom : ∀ call ∈ [Call.opening, .accepting, .drawing],
      ∀ count ≤ (openRules agenda).length + 2 * tokens.length, stack.room call count = true) :
    ∃ d agenda', StepsOn stack c (.part (.rule .factor) :: agenda) d
        (.part (.rule .factor) :: agenda') ∧ d.front = front ∧
      (openRules agenda').length = (openRules agenda).length + 2 * tokens.length := by
  generalize hfront : c.front = ahead at hleads
  induction hleads generalizing c agenda with
  | refl => exact ⟨c, agenda, .refl, hfront, rfl⟩
  | @pass a b s s' tokens front hdraw hleads ih =>
      cases hfront
      obtain ⟨hahead, hmore⟩ := List.forall_mem_cons.1 hkinds
      have hb : b.kind ≠ .eof := by
        cases hleads with
        | refl => exact hlast
        | pass =>
            rw [(List.forall_mem_cons.1 hmore).1]
            decide
      have hcall : Call.ofDraw (.ok b : Except ε Token) = .drawing := by
        simp [Call.ofDraw, Token.isEnd, hb]
      rw [List.length_cons] at hroom ⊢
      obtain ⟨c', agenda', hfirst, hfront', hlength⟩ :=
        exists_stepsOn_leftParenthesis stack agenda hahead hdraw
          (hroom .opening (by decide) _ (by omega)) (hroom .accepting (by decide) _ (by omega))
          (hcall ▸ hroom .drawing (by decide) _ (by omega))
          (hroom .opening (by decide) _ (by omega))
      obtain ⟨d, agenda'', hrest, hlast', hlength'⟩ := ih agenda' hmore hlast
        (fun call hcall count hcount => hroom call hcall count (by omega)) hfront'
      exact ⟨d, agenda'', hfirst.trans hrest, hlast', by omega⟩

/-- So do those that a source begins with. -/
theorem exists_stepsOn_innermost {first : Token} {rest : σ} {tokens : List Token}
    {front : Token × σ} (hleads : Feed.Leads (first, rest) tokens front)
    (hkinds : ∀ t ∈ tokens, t.kind = .leftParenthesis) (hlast : front.1.kind ≠ .eof)
    (hroom : ∀ call ∈ [Call.opening, .accepting, .drawing],
      ∀ count ≤ 2 * tokens.length, stack.room call count = true) :
    ∃ c agenda, StepsOn stack (.first rest first .recording)
        [.part (.rule .factor), .part (.terminal .eof)] c (.part (.rule .factor) :: agenda) ∧
      c.front = front ∧ (openRules agenda).length = 2 * tokens.length := by
  have hnone : (openRules [.part (.terminal .eof)]).length + 2 * tokens.length =
    2 * tokens.length := Nat.zero_add _
  obtain ⟨c, agenda, hsteps, hfront, hlength⟩ :=
    exists_stepsOn_parentheses stack (c := .first rest first .recording)
      [.part (.terminal .eof)] hleads hkinds hlast (by rwa [hnone])
  exact ⟨c, agenda, hsteps, hfront, hlength.trans hnone⟩

end Cursor

/-- **The end behind parentheses may be out of reach**: where there is room for the parentheses but
not for drawing the sentinel, the parse is given up. -/
theorem recordedOn_parentheses_drawingEnd {σ ε : Type} [Feed σ ε] (stack : CallStack)
    {source rest feed : σ} {first last : Token} {tokens : List Token} {front : Token × σ}
    (hfirst : Feed.draw source = (.ok first, rest))
    (hleads : Feed.Leads (first, rest) tokens front)
    (hkinds : ∀ t ∈ tokens, t.kind = .leftParenthesis) (hfront : front.1.kind = .leftParenthesis)
    (hdraw : Feed.draw front.2 = (.ok last, feed)) (hlast : last.kind = .eof)
    (hroom : ∀ call ∈ [Call.opening, .accepting, .drawing],
      ∀ count ≤ 2 * tokens.length + 1, stack.room call count = true)
    (hfull : stack.room .drawingEnd (2 * tokens.length + 1) = false) :
    ∃ e, (recordedOn stack source .factor).1 = some (.tooDeep e) := by
  obtain ⟨c, agenda, hsteps, rfl, hcount⟩ :=
    Cursor.exists_stepsOn_innermost stack hleads hkinds (by rw [hfront]; decide)
      fun call hcall count hle => hroom call hcall count (Nat.le_succ_of_le hle)
  have hcall : Call.ofDraw (.ok last : Except ε Token) = .drawingEnd := by
    simp [Call.ofDraw, Token.isEnd, hlast]
  have hopen : stack.room .opening (openRules agenda).length = true :=
    hroom .opening (by decide) _ (by omega)
  have haccept : stack.room .accepting ((openRules agenda).length + 1) = true :=
    hroom .accepting (by decide) _ (by omega)
  have hend : stack.room (.ofDraw (.ok last : Except ε Token)) ((openRules agenda).length + 1) =
      false := by rw [hcall, hcount, hfull]
  -- the innermost factor is opened, and the sentinel is drawn for its parenthesis
  have hbody := Rule.factor_body_leftParenthesis hfront
  have hopened := hsteps.trans
    (.step (Cursor.hasRoom_of_body hopen hbody) (.opening (Cursor.mayOpen_none _) hbody) .refl)
  have hrun := Cursor.runOn_eq_iff.2 ⟨_, _, hopened, .overflows (.drawing haccept hdraw hend)⟩
  exact ⟨_, congrArg Prod.fst (parseOn_of_run hfirst hrun)⟩

/-- **Nothing behind parentheses is rejected**, where there is room for everything. -/
theorem recordedOn_parentheses_rejected {σ ε : Type} [Feed σ ε] (stack : CallStack)
    {source rest feed : σ} {first last : Token} {tokens : List Token} {front : Token × σ}
    (hfirst : Feed.draw source = (.ok first, rest))
    (hleads : Feed.Leads (first, rest) tokens front)
    (hkinds : ∀ t ∈ tokens, t.kind = .leftParenthesis) (hfront : front.1.kind = .leftParenthesis)
    (hdraw : Feed.draw front.2 = (.ok last, feed)) (hlast : last.kind = .eof)
    (hroom : ∀ call, ∀ count ≤ 2 * tokens.length + 3, stack.room call count = true) :
    ∃ e, (recordedOn stack source .factor).1 = some (.syntaxError e) := by
  obtain ⟨c, agenda, hsteps, rfl, hcount⟩ :=
    Cursor.exists_stepsOn_innermost stack hleads hkinds (by rw [hfront]; decide)
      fun call _ count hle => hroom call count (Nat.le_trans hle (Nat.le_add_right _ 3))
  obtain ⟨d, agenda', hmore, hahead, hcount'⟩ :=
    Cursor.exists_stepsOn_leftParenthesis stack agenda hfront hdraw
      (hroom _ _ (by omega)) (hroom _ _ (by omega)) (hroom _ _ (by omega)) (hroom _ _ (by omega))
  have hbody : Rule.factor.body d.lookahead.kind = .error .factor := by
    rw [show d.lookahead = last from congrArg Prod.fst hahead, hlast]
    rfl
  have hunwinds : stack.unwinds ((openRules agenda').length + 1) = true :=
    Cursor.unwinds_of_room fun k hk => hroom .framing k (by omega)
  have hrun := Cursor.runOn_eq_iff.2 ⟨_, _, hsteps.trans hmore,
    .halts (Cursor.hasRoom_of_choice (hroom _ _ (by omega)) (hroom _ _ (by omega)) hunwinds)
      (.choice (Cursor.mayOpen_none _) hbody)⟩
  exact ⟨_, congrArg Prod.fst (parseOn_of_run hfirst hrun)⟩

/-- Parentheses in front of a semicolon. -/
def TokenQueue.parentheses (count : Nat) : TokenQueue :=
  ⟨List.replicate count ⟨.leftParenthesis, "(", 1⟩ ++ [⟨.semicolon, ";", 1⟩], 1⟩

end SccSharp
