import SccSharp.Proofs.Laziness

/-!
# Limits on nesting

A limit on the rules open at once never turns into a wrong verdict. A parse that does not hit its
limit is the parse under every wider limit, and the parse without one. A parse hits its limit just
if the trace of the parse without a limit leads deeper somewhere, and is given up there: its trace
is what the other one shows up to the first rule too many.

How deep a trace leads is told by its events alone, as the beginnings less the endings among them
(`depth`). Steps keep that in agreement with the agenda, where the open rules wait to be closed
(`Chained.depth_eq`). So the guard that lets a rule be opened, which looks at the agenda, keeps the
trace within the limit (`Underway.exists_within_of_steps`).

## Main Definitions

* `Within` — events that lead nowhere deeper than a limit

## Main Statements

* `recorded_widen` — a parse that does not hit its limit
* `recorded_tooDeep_iff` — when a parse hits its limit
* `limit_never_misjudges` — both, and what they mean for sentences
-/

namespace SccSharp

/-! ### Events within a limit -/

/-- **Events within a limit**: nowhere in them are more rules open. -/
def Within (limit : Nat) (events : List Event) : Prop :=
  ∀ before, before <+: events → depth before ≤ limit

namespace Within

variable {limit : Nat} {events : List Event} {e : Event}

theorem nil : Within limit [] := by
  intro before hprefix
  rw [List.prefix_nil.1 hprefix]
  exact Int.natCast_nonneg limit

/-- One more event stays within the limit if it leads to a depth that does. -/
theorem concat (h : Within limit events) (hdepth : depth (events ++ [e]) ≤ limit) :
    Within limit (events ++ [e]) := by
  intro before hprefix
  rcases List.prefix_concat_iff.1 hprefix with rfl | hshort
  · exact hdepth
  · exact h before hshort

/-- An event that begins no rule stays within the limit. -/
theorem concat_of_rise (h : Within limit events) (hrise : e.rise ≤ 0) :
    Within limit (events ++ [e]) := by
  refine h.concat ?_
  have hdepth := h events List.prefix_rfl
  rw [depth_append, depth_cons, depth_nil]
  omega

end Within

/-! ### Runs within a limit -/

namespace Cursor

variable {σ ε : Type} [Feed σ ε] {c d : Cursor σ} {agenda agenda' : Agenda} {events : List Event}
variable {begins : List Begin}

omit [Feed σ ε] in
/-- Events lead as deep as there are rules open. -/
theorem Chained.depth_eq (h : c.Chained agenda events begins) :
    depth events = (openRules agenda).length := by
  have hlength := congrArg List.length h.rules
  rw [List.length_map, List.length_map] at hlength
  rw [h.pending.depth_eq, hlength]

omit [Feed σ ε] in
/-- Where one more rule may be opened, it stays within the limit. -/
theorem Chained.within_opened {limit : Nat} {r : Rule} (h : c.Chained agenda events begins)
    (hwithin : Within limit events)
    (hopen : mayOpen (some limit) (openRules agenda).length = true) :
    Within limit (events ++ [.opened r]) := by
  have hlt : (openRules agenda).length < limit := by simpa [mayOpen] using hopen
  refine hwithin.concat ?_
  rw [depth_append, h.depth_eq, depth_cons, depth_nil, Event.rise]
  omega

/-- **A step under a limit stays within it.** -/
theorem Underway.exists_within_of_step {limit : Nat} (h : c.Underway agenda events begins)
    (hwithin : Within limit events) (hstep : Step (some limit) c agenda d agenda') :
    ∃ events' begins', d.Underway agenda' events' begins' ∧ Within limit events' := by
  obtain ⟨events', begins', hunderway⟩ := h.exists_of_step hstep
  refine ⟨events', begins', hunderway, ?_⟩
  -- the record tells which events these are
  have hrecord : ∀ more, d.sink = c.sink.emitAll more → events' = events ++ more := by
    intro more hsink
    rw [hunderway.recorded, h.recorded, Sink.emitAll_record] at hsink
    simpa using hsink
  cases hstep with
  | close =>
      rw [hrecord [.closed _] rfl]
      exact hwithin.concat_of_rise (Int.negSucc_le_zero 0)
  | continuation =>
      rw [hrecord [] rfl, List.append_nil]
      exact hwithin
  | accept =>
      rw [hrecord [.accepted _] rfl]
      exact hwithin.concat_of_rise (Int.le_refl _)
  | opening hopen =>
      rw [hrecord [.opened _] rfl]
      exact h.within_opened hwithin hopen

/-- **Steps under a limit stay within it.** -/
theorem Underway.exists_within_of_steps {limit : Nat} (h : c.Underway agenda events begins)
    (hwithin : Within limit events) (hsteps : Steps (some limit) c agenda d agenda') :
    ∃ events' begins', d.Underway agenda' events' begins' ∧ Within limit events' := by
  induction hsteps generalizing events begins with
  | refl => exact ⟨events, begins, h, hwithin⟩
  | step hstep _ ih =>
      obtain ⟨events', begins', h', hwithin'⟩ := h.exists_within_of_step hwithin hstep
      exact ih h' hwithin'

/-- A halt that the limit does not make stays within it. -/
theorem Underway.within_of_halts {limit : Nat} {stop : Option (Stop ε)}
    (h : c.Underway agenda events begins) (hwithin : Within limit events)
    (hhalts : Halts (some limit) c agenda stop d) (hstop : ∀ e, stop ≠ some (.tooDeep e)) :
    Within limit (d.report stop).sink.events := by
  have hrecord : ∀ more, (d.report stop).sink = c.sink.emitAll more →
      (d.report stop).sink.events = events ++ more := by
    intro more hsink
    rw [hsink, h.recorded, Sink.emitAll_record]
    simp [Sink.events]
  cases hhalts with
  | done =>
      rw [hrecord [.succeeded] rfl]
      exact hwithin.concat_of_rise (Int.le_refl _)
  | mismatch =>
      rw [hrecord [.rejected _ _] rfl]
      exact hwithin.concat_of_rise (Int.le_refl _)
  | starved =>
      rw [hrecord [.accepted _] rfl]
      exact hwithin.concat_of_rise (Int.le_refl _)
  | @choice r _ _ hopen =>
      rw [hrecord ([.opened r] ++ [.rejected _ _]) rfl, ← List.append_assoc]
      exact (h.within_opened hwithin hopen).concat_of_rise (Int.le_refl _)
  | tooDeep => exact absurd rfl (hstop _)

/-- A run that has a rule to recognise opens it before anything else. -/
theorem exists_events_of_run_rule {r : Rule} {stop : Option (Stop ε)}
    (h : c.run none (.part (.rule r) :: agenda) = (stop, d)) :
    ∃ later, (d.report stop).sink = c.sink.emitAll (.opened r :: later) := by
  cases hbody : r.body c.lookahead.kind with
  | ok body =>
      rw [run_of_step (.opening (mayOpen_none _) hbody)] at h
      obtain ⟨later, hsink, -⟩ := exists_events_of_run h
      exact ⟨later, hsink⟩
  | error alternatives =>
      rw [run_of_halts (.choice (mayOpen_none _) hbody)] at h
      cases h
      exact ⟨[.rejected _ _], rfl⟩

end Cursor

/-! ### Parses under a limit -/

section

variable {σ ε : Type} [Feed σ ε] {source : σ} {start : Rule}

/-- **A parse that does not hit its limit** is the parse under every wider one. -/
theorem recorded_widen {limit wider : Option Nat} (hwider : Cursor.Wider limit wider)
    (hstop : ∀ e, (recorded limit source start).1 ≠ some (.tooDeep e)) :
    recorded wider source start = recorded limit source start := by
  rcases recorded_cases limit source start with
    ⟨e, rest, hfirst, hparse⟩ | ⟨t, rest, stop, d, hfirst, hrun, hparse⟩
  · rw [hparse]
    exact parse_of_draw_error start hfirst
  · rw [hparse] at hstop ⊢
    exact parse_of_run hfirst (Cursor.run_widen hwider hrun hstop)

/-- What a run under way has recorded when a parse starts. -/
theorem Cursor.underway_first (t : Token) (rest : σ) (start : Rule) :
    (Cursor.first rest t .recording).Underway [.part (.rule start), .part (.terminal .eof)] [] [] :=
  ⟨⟨rfl, .balanced .nil, rfl⟩, .nil, List.forall_mem_nil _⟩

/-- A parse that does not hit its limit stays within it. -/
theorem within_of_recorded {limit : Nat}
    (hstop : ∀ e, (recorded (some limit) source start).1 ≠ some (.tooDeep e)) :
    Within limit (recorded (some limit) source start).2.sink.events := by
  rcases recorded_cases (some limit) source start with
    ⟨e, rest, -, hparse⟩ | ⟨t, rest, stop, d, -, hrun, hparse⟩
  · rw [hparse]
    exact .nil
  · rw [hparse] at hstop ⊢
    obtain ⟨c, agenda, hsteps, hhalts⟩ := Cursor.run_eq_iff.1 hrun
    obtain ⟨events, begins, hunderway, hwithin⟩ :=
      (Cursor.underway_first t rest start).exists_within_of_steps .nil hsteps
    exact hunderway.within_of_halts hwithin hhalts hstop

/-- **A parse that hits its limit** has the trace that the parse without a limit has, up to the
first rule too many. -/
theorem exists_of_recorded_tooDeep {limit : Nat} {e : DepthError}
    (h : (recorded (some limit) source start).1 = some (.tooDeep e)) :
    ∃ r, (recorded (some limit) source start).2.sink.events ++ [.opened r] <+:
        (recorded none source start).2.sink.events ∧
      depth (recorded (some limit) source start).2.sink.events = limit := by
  rcases recorded_cases (some limit) source start with
    ⟨e, rest, -, hparse⟩ | ⟨t, rest, stop, d, hfirst, hrun, hparse⟩
  · rw [hparse] at h
    cases h
  · rw [hparse] at h ⊢
    subst h
    obtain ⟨c, agenda, hsteps, hhalts⟩ := Cursor.run_eq_iff.1 hrun
    obtain ⟨events, begins, hunderway, hwithin⟩ :=
      (Cursor.underway_first t rest start).exists_within_of_steps .nil hsteps
    cases hhalts with
    | @tooDeep r agenda hclosed =>
        have hevents : d.sink.events = events := by rw [hunderway.recorded, Sink.events]
        -- without a limit the run comes as far, and opens the rule
        have hunlimited := hsteps.widen (.unlimited _)
        cases hrest : d.run none (.part (.rule r) :: agenda) with
        | mk stop' d' =>
            have hrun' := (Cursor.run_of_steps hunlimited).trans hrest
            obtain ⟨later, hsink⟩ := Cursor.exists_events_of_run_rule hrest
            refine ⟨r, ?_, ?_⟩
            · show d.sink.events ++ _ <+: (recorded none source start).2.sink.events
              rw [recorded, parse_of_run hfirst hrun', hevents]
              show _ <+: (d'.report stop').sink.events
              rw [hsink, hunderway.recorded, Sink.emitAll_record]
              exact ⟨later, by simp [Sink.events]⟩
            · show depth d.sink.events = limit
              have hle : limit ≤ (openRules agenda).length := by
                simpa [mayOpen] using hclosed
              have hdepth := hunderway.depth_eq
              have hlimit := hwithin events List.prefix_rfl
              rw [openRules_part] at hdepth
              rw [hevents]
              omega

/-- **When a parse hits its limit**: just if the parse without a limit leads deeper somewhere. -/
theorem recorded_tooDeep_iff {limit : Nat} :
    (∃ e, (recorded (some limit) source start).1 = some (.tooDeep e)) ↔
      ∃ before, before <+: (recorded none source start).2.sink.events ∧ limit < depth before := by
  constructor
  · rintro ⟨e, h⟩
    obtain ⟨r, hprefix, hdepth⟩ := exists_of_recorded_tooDeep h
    refine ⟨_, hprefix, ?_⟩
    rw [depth_append, hdepth, depth_cons, depth_nil, Event.rise]
    omega
  · rintro ⟨before, hprefix, hdeep⟩
    by_cases hhit : ∃ e, (recorded (some limit) source start).1 = some (.tooDeep e)
    · exact hhit
    · have hstop := not_exists.1 hhit
      rw [recorded_widen (.unlimited (some limit)) hstop] at hprefix
      exact absurd (within_of_recorded hstop before hprefix) (Int.not_le.2 hdeep)

/-- The tokens given, read from a queue. -/
theorem Feed.Gives.body_queue {tokens : List Token} {t : Token}
    (h : Feed.Gives source tokens (.ok t)) :
    TokenQueue.body { tokens := tokens ++ [t] } = tokens := by
  have hmore : ∀ a ∈ tokens, decide (a.kind ≠ .eof) = true := by simpa using h.kind_ne_eof
  have hlast : [t].takeWhile (fun a => a.kind ≠ .eof) = [] := by
    simp [h.kind_eof]
  rw [TokenQueue.body, List.takeWhile_append_of_pos hmore, hlast, List.append_nil]

/-- The terminals of the tokens given, read from a queue. -/
theorem Feed.Gives.word_queue {tokens : List Token} {t : Token}
    (h : Feed.Gives source tokens (.ok t)) :
    TokenQueue.word { tokens := tokens ++ [t] } = tokens.map Token.kind := by
  rw [TokenQueue.word, h.body_queue]

/-- **Sentences are what is accepted** without a limit, from every source that has an end. -/
theorem recorded_eq_none_iff {tokens : List Token} {t : Token} (hsteady : Feed.Steady σ)
    (h : Feed.Gives source tokens (.ok t)) :
    (recorded none source start).1 = none ↔ start.Sentence (tokens.map Token.kind) := by
  have hagree : Agreement (recorded none source start) (replayed none (tokens ++ [t]) start) :=
    agreement_of_gives hsteady h
  rw [← h.word_queue, ← parse_iff_sentence _ .recording start, hagree.stop, Option.map_eq_none_iff]
  rfl

end

/-! ### Verdicts under a limit -/

/-- **A limit never turns into a wrong verdict.** A parse that does not hit its limit is the same
under every wider limit and without one: how it ends, all entries of an error, the trace, the count.
It hits the limit just if the parse without one would somewhere have more rules open, and then its
trace is that of the other parse up to the first rule too many, with no outcome in it. So a limit
makes of the sentences of the start rule a success or a parse given up, and accepts nothing else. -/
theorem limit_never_misjudges {σ ε : Type} [Feed σ ε] (source : σ) (start : Rule) (limit : Nat) :
    (∀ wider : Option Nat, (∀ count, wider = some count → limit ≤ count) →
      (∀ e, (recorded (some limit) source start).1 ≠ some (.tooDeep e)) →
        recorded wider source start = recorded (some limit) source start) ∧
    ((∃ e, (recorded (some limit) source start).1 = some (.tooDeep e)) ↔
      ∃ before, before <+: (recorded none source start).2.sink.events ∧ limit < depth before) ∧
    (∀ e, (recorded (some limit) source start).1 = some (.tooDeep e) →
      (∃ r, (recorded (some limit) source start).2.sink.events ++ [.opened r] <+:
          (recorded none source start).2.sink.events ∧
        depth (recorded (some limit) source start).2.sink.events = limit) ∧
      ∀ event ∈ (recorded (some limit) source start).2.sink.events, event.isOutcome = false) ∧
    (∀ tokens t, Feed.Steady σ → Feed.Gives source tokens (.ok t) →
      (start.Sentence (tokens.map Token.kind) → (recorded (some limit) source start).1 = none ∨
        ∃ e, (recorded (some limit) source start).1 = some (.tooDeep e)) ∧
      (¬ start.Sentence (tokens.map Token.kind) →
        (recorded (some limit) source start).1 ≠ none)) := by
  refine ⟨?_, recorded_tooDeep_iff, ?_, ?_⟩
  · intro wider hle hstop
    refine recorded_widen ?_ hstop
    intro count hopen
    have hlt : count < limit := by simpa [mayOpen] using hopen
    cases wider with
    | none => rfl
    | some wide =>
        have := hle wide rfl
        simp only [mayOpen, Option.all_some, decide_eq_true_eq]
        omega
  · intro e h
    refine ⟨exists_of_recorded_tooDeep h, ?_⟩
    obtain ⟨houtcome, -⟩ := recordedOn_outcome (.limited (some limit)) source start
    rw [show (recordedOn (.limited (some limit)) source start).1 = _ from h] at houtcome
    exact houtcome.undecided_of_limited
  · intro tokens t hsteady hgives
    rw [← recorded_eq_none_iff hsteady hgives]
    by_cases hhit : ∃ e, (recorded (some limit) source start).1 = some (.tooDeep e)
    · refine ⟨fun _ => .inr hhit, ?_⟩
      obtain ⟨e, hhit⟩ := hhit
      intro _
      rw [hhit]
      exact Option.some_ne_none _
    · rw [recorded_widen (.unlimited (some limit)) (not_exists.1 hhit)]
      exact ⟨.inl, id⟩

/-- The end of a queue is final. -/
theorem TokenQueue.steady : Feed.Steady TokenQueue := by
  rintro ⟨tokens, lastLine⟩ q' t hdraw hlast
  cases tokens with
  | nil =>
      cases hdraw
      exact ⟨_, rfl⟩
  | cons a rest =>
      by_cases ha : a.kind = .eof
      · rw [feed_draw_of_eof ha] at hdraw
        cases hdraw
        exact ⟨_, feed_draw_of_eof ha⟩
      · rw [feed_draw_of_ne ha] at hdraw
        cases hdraw
        exact absurd hlast ha

/-- Two arguments are within the limit of two rules, and one rule is too little for them. -/
theorem limit_never_misjudges_twoArguments :
    recorded none twoArguments .argumentList = recorded (some 2) twoArguments .argumentList ∧
      (∃ before, before <+: (recorded none twoArguments .argumentList).2.sink.events ∧
        1 < depth before) ∧
      depth (recorded (some 1) twoArguments .argumentList).2.sink.events = 1 ∧
      ((recorded (some 1) twoArguments .argumentList).1 = none ∨
        ∃ e, (recorded (some 1) twoArguments .argumentList).1 = some (.tooDeep e)) := by
  have hwithin : (recorded (some 2) twoArguments .argumentList).1 = none := by
    have hrun : (twoArguments.cursor .recording).run (some 2)
        [.part (.rule .argumentList), .part (.terminal .eof)] = (none, _) :=
      Cursor.run_eq_iff.2 ⟨_, _, .step (.opening rfl rfl) <| .step (.accept rfl) <|
        .step .continuation <| .step (.accept rfl) <| .step (.opening rfl rfl) <|
        .step (.accept rfl) <| .step .continuation <| .step .close <| .step .close <|
        .step (.accept rfl) .refl, .done⟩
    exact congrArg Prod.fst (parse_of_run (by rfl) hrun)
  have hbeyond : (recorded (some 1) twoArguments .argumentList).1 =
      some (.tooDeep ⟨⟨.identifier, "b", 2⟩, 2⟩) := by
    have hrun : (twoArguments.cursor .recording).run (some 1)
        [.part (.rule .argumentList), .part (.terminal .eof)] = (some (.tooDeep _), _) :=
      Cursor.run_eq_iff.2 ⟨_, _, .step (.opening rfl rfl) <| .step (.accept rfl) <|
        .step .continuation <| .step (.accept rfl) .refl, .tooDeep rfl⟩
    exact congrArg Prod.fst (parse_of_run (by rfl) hrun)
  have hgives : Feed.Gives twoArguments twoArguments.tokens (.ok (.endOfInput 2)) :=
    .token rfl (by decide) (.token rfl (by decide) (.token rfl (by decide) (.sentinel rfl rfl)))
  have hsentence : Rule.argumentList.Sentence (twoArguments.tokens.map Token.kind) :=
    Rule.sentence_iff.2 ⟨_, reads_twoArguments, rfl⟩
  obtain ⟨hwider, -⟩ := limit_never_misjudges twoArguments .argumentList 2
  obtain ⟨-, hhit, htrace, hsentences⟩ := limit_never_misjudges twoArguments .argumentList 1
  refine ⟨hwider none nofun ?_, hhit.1 ⟨_, hbeyond⟩, ?_, ?_⟩
  · intro e
    rw [hwithin]
    exact nofun
  · obtain ⟨⟨r, -, hdepth⟩, -⟩ := htrace _ hbeyond
    exact hdepth
  · exact (hsentences _ _ TokenQueue.steady hgives).1 hsentence

end SccSharp
