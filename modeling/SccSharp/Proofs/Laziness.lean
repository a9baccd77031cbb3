import SccSharp.Proofs.Layout
import SccSharp.Proofs.Exchange
import SccSharp.Proofs.Redrawing

/-!
# Checking while reading

A source can be checked while it is read, or read to its end first and checked afterwards. Where
the source has an end, the two give the same. Where it has none, because a token of it cannot be
read, the tokens in front of the failure may be continued in any way: a parse of them that goes
wrong early goes wrong in the same way while reading, and otherwise reading fails.

A queue of tokens copies a source (`Feed.CopiedBy`) if it holds what the source still gives, and
then the sentinel or any continuation. Drawing keeps that up, so a run over the source goes over to
the queue, and where the source fails, the run over the queue has come as far.

## Main Definitions

* `Feed.CopiedBy` — a queue that holds what a feed gives
* `replayed` — a whole parse of tokens read before
* `Agreement` — two parses that give the same
* `Truncation` — a parse that its source cuts off
* `Early` — a parse that goes wrong before a number of tokens is accepted

## Main Statements

* `agreement_of_gives` — the source has an end
* `early_or_truncation` — it has none
* `check_while_reading` — both
-/

namespace SccSharp

/-! ### Queues that copy a source -/

namespace Feed

variable {σ ε : Type} [Feed σ ε]

/-- **A feed whose end is final**: the sentinel is given again after it. -/
def Steady (σ : Type) {ε : Type} [Feed σ ε] : Prop :=
  ∀ (s s' : σ) (t : Token), draw s = (.ok t, s') → t.kind = .eof → ∃ s'', draw s' = (.ok t, s'')

/-- **A queue copies a feed**: it holds the tokens that the feed gives before it ends one way or
another, and a tail in place of the end. -/
def CopiedBy (outcome : Except ε Token) (tail : List Token) (s : σ) (q : TokenQueue) : Prop :=
  ∃ tokens, Gives s tokens outcome ∧ q.tokens = tokens ++ tail

/-- **A queue that copies a feed follows it**, if a sentinel at the end is copied too. -/
theorem follows_copiedBy (hsteady : Steady σ) {outcome : Except ε Token} {tail : List Token}
    (htail : ∀ t, outcome = .ok t → tail = [t]) : Follows (CopiedBy (σ := σ) outcome tail) := by
  rintro s ⟨queue, lastLine⟩ t s' ⟨tokens, hgives, rfl⟩ hdraw
  cases hgives with
  | sentinel hdraw' hlast =>
      rw [hdraw] at hdraw'
      cases hdraw'
      obtain ⟨s'', hagain⟩ := hsteady _ _ _ hdraw hlast
      rw [htail t rfl]
      exact ⟨_, TokenQueue.feed_draw_of_eof hlast, [], .sentinel hagain hlast, rfl⟩
  | failure hdraw' =>
      rw [hdraw] at hdraw'
      cases hdraw'
  | @token _ _ _ more _ hdraw' hmore hgives =>
      rw [hdraw] at hdraw'
      cases hdraw'
      exact ⟨_, TokenQueue.feed_draw_of_ne hmore, more, hgives, rfl⟩

/-- A feed with an end does not fail. -/
theorem Gives.not_breaks (hsteady : Steady σ) {s : σ} {tokens : List Token} {t : Token} {e : ε}
    (h : Gives s tokens (.ok t)) : ¬ Breaks s e := by
  intro hbreaks
  induction hbreaks generalizing tokens with
  | now hdraw =>
      cases h with
      | sentinel hdraw' | token hdraw' =>
          rw [hdraw] at hdraw'
          cases hdraw'
  | later hdraw _ ih =>
      cases h with
      | sentinel hdraw' hlast =>
          rw [hdraw] at hdraw'
          cases hdraw'
          obtain ⟨s'', hagain⟩ := hsteady _ _ _ hdraw hlast
          exact ih (.sentinel hagain hlast)
      | token hdraw' _ hgives =>
          rw [hdraw] at hdraw'
          cases hdraw'
          exact ih hgives

/-- On the way to a failure, what has been passed and what is left are the tokens given. -/
theorem Gives.of_leads {front last : Token × σ} {tokens passed : List Token} {e : ε}
    (h : Gives front.2 tokens (.error e)) (hleads : Leads front passed last) :
    ∃ left, front.1 :: tokens = passed ++ last.1 :: left ∧ Gives last.2 left (.error e) := by
  induction hleads generalizing tokens with
  | refl => exact ⟨tokens, rfl, h⟩
  | pass hdraw _ ih =>
      obtain ⟨more, rfl, -, hgives⟩ := h.of_draw_ok hdraw
      obtain ⟨left, hsplit, hleft⟩ := ih hgives
      exact ⟨left, congrArg (_ :: ·) hsplit, hleft⟩

/-- **What is given is led to**, token by token. -/
theorem Gives.exists_leads {s : σ} {first : Token} {tokens : List Token} {outcome : Except ε Token}
    (h : Gives s (first :: tokens) outcome) :
    ∃ rest, draw s = (.ok first, rest) ∧
      ∀ {passed left : List Token} {last : Token}, first :: tokens = passed ++ last :: left →
        ∃ feed, Leads (first, rest) passed (last, feed) ∧ Gives feed left outcome := by
  induction tokens generalizing s first with
  | nil =>
      cases h with
      | token hdraw _ hgives =>
          refine ⟨_, hdraw, fun {passed left last} hsplit => ?_⟩
          cases passed with
          | nil =>
              cases hsplit
              exact ⟨_, .refl _, hgives⟩
          | cons head passed => exact absurd (List.cons.inj hsplit).2.symm (by simp)
  | cons next tokens ih =>
      cases h with
      | token hdraw _ hgives =>
          obtain ⟨_, hdraw', hleads⟩ := ih hgives
          refine ⟨_, hdraw, fun {passed left last} hsplit => ?_⟩
          cases passed with
          | nil =>
              cases hsplit
              exact ⟨_, .refl _, hgives⟩
          | cons head passed =>
              obtain ⟨rfl, hmore⟩ := List.cons.inj hsplit
              obtain ⟨feed, hpassed, hleft⟩ := hleads hmore
              exact ⟨feed, .pass hdraw' hpassed, hleft⟩

end Feed

/-- The end of a reader is final. -/
theorem Reader.steady : Feed.Steady Reader := by
  intro r r' t hdraw hlast
  change r.draw = (.ok t, r') at hdraw
  obtain ⟨hended, ht⟩ := ended_of_draw (congrArg Prod.fst hdraw) hlast
  rw [hdraw] at hended ht
  exact ⟨r', (draw_of_ended hended).trans (by rw [← ht])⟩

/-! ### Parses compared -/

/-- **A whole parse of tokens** that have been read before. -/
def replayed (limit : Option Nat) (tokens : List Token) (start : Rule) :
    Option (Stop Empty) × Analyser TokenQueue :=
  recorded limit ({ tokens := tokens } : TokenQueue) start

/-- **Two parses agree** in how they end, errors with all their entries included, and in their
traces, counts and lookaheads. A queue cannot fail, so that no failure is compared. -/
structure Agreement {σ ε : Type} (p : Option (Stop ε) × Analyser σ)
    (p' : Option (Stop Empty) × Analyser TokenQueue) : Prop where
  stop : p.1 = p'.1.map (Stop.map Empty.elim)
  sink : p.2.sink = p'.2.sink
  consumed : p.2.consumed = p'.2.consumed
  lookahead : p.2.lookahead? = p'.2.lookahead?

/-- The events up to a token accepted, by its number; none for the number zero. -/
def throughToken : Nat → List Event → List Event
  | 0, _ => []
  | _ + 1, [] => []
  | count + 1, .accepted t :: events => .accepted t :: throughToken count events
  | count + 1, e :: events => e :: throughToken (count + 1) events

@[simp] theorem throughToken_zero (events : List Event) : throughToken 0 events = [] := by
  cases events <;> rfl

/-- **A parse is cut off** by a failure of its source behind a number of tokens. Its trace is the
one of the other parse up to the last of them, which has accepted that many, but the last one does
not count. -/
structure Truncation {σ ε : Type} (failure : ε) (count : Nat) (p : Option (Stop ε) × Analyser σ)
    (p' : Option (Stop Empty) × Analyser TokenQueue) : Prop where
  stop : p.1 = some (.sourceFailed failure)
  events : p.2.sink.events = throughToken count p'.2.sink.events
  reached : count ≤ (acceptedTokens p'.2.sink.events).length
  consumed : p.2.consumed = count - 1

/-- **A parse goes wrong early**: it ends in a syntax error or too deep, with fewer tokens accepted
than a number. -/
def Early (count : Nat) (p : Option (Stop Empty) × Analyser TokenQueue) : Prop :=
  ((∃ e, p.1 = some (.syntaxError e)) ∨ ∃ e, p.1 = some (.tooDeep e)) ∧ p.2.consumed < count

/-- Stops that are no failures are equal if they are so among those with failures. -/
theorem Stop.map_elim_inj {ε : Type} {s s' : Stop Empty}
    (h : s.map (Empty.elim : Empty → ε) = s'.map Empty.elim) : s = s' := by
  cases s with
  | sourceFailed e => exact e.elim
  | syntaxError | tooDeep | misused =>
      cases s' with
      | sourceFailed e => exact e.elim
      | syntaxError | tooDeep | misused => cases h <;> rfl

/-- What agrees with one parse is the same. -/
theorem Agreement.same {σ ε : Type} {p : Option (Stop ε) × Analyser σ}
    {p' p'' : Option (Stop Empty) × Analyser TokenQueue} (h : Agreement p p')
    (h' : Agreement p p'') :
    p''.1 = p'.1 ∧ p''.2.sink = p'.2.sink ∧ p''.2.consumed = p'.2.consumed := by
  refine ⟨?_, h'.sink.symm.trans h.sink, h'.consumed.symm.trans h.consumed⟩
  have hstop := h'.stop.symm.trans h.stop
  exact (Option.map_inj_right fun _ _ => Stop.map_elim_inj).1 hstop

/-- A parse that agrees with one that goes wrong early neither succeeds nor is failed by its
source. -/
theorem Agreement.ne_of_early {σ ε : Type} {count : Nat} {p : Option (Stop ε) × Analyser σ}
    {p' : Option (Stop Empty) × Analyser TokenQueue} (h : Agreement p p')
    (hearly : Early count p') : p.1 ≠ none ∧ ∀ e, p.1 ≠ some (.sourceFailed e) := by
  rw [h.stop]
  rcases hearly.1 with ⟨error, herror⟩ | ⟨error, herror⟩
  · rw [herror]
    exact ⟨nofun, nofun⟩
  · rw [herror]
    exact ⟨nofun, nofun⟩

/-- The last token accepted ends the events up to it. -/
theorem throughToken_append (events later : List Event) (t : Token) :
    throughToken ((acceptedTokens events).length + 1) (events ++ .accepted t :: later) =
      events ++ [.accepted t] := by
  induction events with
  | nil => simp [throughToken]
  | cons e events ih =>
      cases e with
      | accepted => exact congrArg (_ :: ·) ih
      | opened | closed | succeeded | rejected => exact congrArg (_ :: ·) ih

section

variable {σ ε : Type} [Feed σ ε] {limit : Option Nat} {start : Rule} {source : σ}
variable {tokens : List Token}

/-- **A parse goes over** to a queue that follows its source, unless the source fails it. -/
theorem agreement_of_follows {related : σ → TokenQueue → Prop} (hfollows : Feed.Follows related)
    {q : TokenQueue} (hqueue : related source q)
    (hstop : ∀ e, (recorded limit source start).1 ≠ some (.sourceFailed e)) :
    Agreement (recorded limit source start) (recorded limit q start) := by
  rcases recorded_cases limit source start with
    ⟨e, rest, -, hparse⟩ | ⟨t, rest, stop, d, hfirst, hrun, hparse⟩
  · rw [hparse] at hstop
    exact absurd rfl (hstop e)
  · obtain ⟨q', hfirst', hqueue'⟩ := hfollows _ _ _ _ hqueue hfirst
    rw [hparse] at hstop ⊢
    obtain ⟨stop', feed', hrun', rfl⟩ :=
      Cursor.run_withFeed Empty.elim hfollows hqueue' hrun hstop
    rw [Cursor.withFeed_first] at hrun'
    rw [recorded, parse_of_run hfirst' hrun', Cursor.report_withFeed d feed' Empty.elim stop']
    exact ⟨rfl, rfl, rfl, rfl⟩

/-- A parse that its source fails has met a draw that failed. -/
theorem breaks_of_recorded {e : ε}
    (h : (recorded limit source start).1 = some (.sourceFailed e)) : Feed.Breaks source e :=
  breaks_of_recordedOn (show (recordedOn (.limited limit) source start).1 = _ from h)

/-- **Where the source has an end**, its tokens are checked in the same way after reading. -/
theorem agreement_of_gives (hsteady : Feed.Steady σ) {t : Token}
    (h : Feed.Gives source tokens (.ok t)) :
    Agreement (recorded limit source start) (replayed limit (tokens ++ [t]) start) := by
  have hfollows : Feed.Follows (Feed.CopiedBy (σ := σ) (.ok t : Except ε Token) [t]) :=
    Feed.follows_copiedBy hsteady (by rintro _ ⟨⟩; rfl)
  refine agreement_of_follows hfollows ⟨tokens, h, rfl⟩ ?_
  intro e hfailed
  exact h.not_breaks hsteady (breaks_of_recorded hfailed)

/-! ### Sources without an end -/

/-- A parse that its source does not fail leaves a token that it does not accept. -/
theorem consumed_lt_of_recorded {e : ε} (h : Feed.Gives source tokens (.error e))
    (hstop : ∀ failure, (recorded limit source start).1 ≠ some (.sourceFailed failure)) :
    (recorded limit source start).2.consumed < tokens.length := by
  rcases recorded_cases limit source start with
    ⟨failure, rest, -, hparse⟩ | ⟨t, rest, stop, d, hfirst, hrun, hparse⟩
  · rw [hparse] at hstop
    exact absurd rfl (hstop failure)
  · obtain ⟨more, rfl, -, hgives⟩ := h.of_draw_ok hfirst
    obtain ⟨c, agenda, hsteps, hhalts⟩ := Cursor.run_eq_iff.1 hrun
    obtain ⟨events, hleads, hafter⟩ := hsteps.exists_after
    obtain ⟨-, -, hconsumed⟩ := hhalts.exists_events
    have hcount : d.consumed = (acceptedTokens events).length := by
      rw [hconsumed, hafter]
      exact Nat.zero_add _
    -- the lookahead and what is left have been given, but not accepted
    obtain ⟨left, hsplit, -⟩ := hgives.of_leads hleads
    have hlength : (t :: more).length = (acceptedTokens events ++ c.lookahead :: left).length :=
      congrArg List.length hsplit
    rw [hparse, Analyser.consumed, Cursor.consumed_report, hcount, hlength, List.length_append,
      List.length_cons]
    omega

/-- **A parse that agrees with one of the queue goes wrong early**: no sentinel comes so soon. -/
theorem early_of_agreement {e : ε} (h : Feed.Gives source tokens (.error e)) {more : List Token}
    (hstop : ∀ failure, (recorded limit source start).1 ≠ some (.sourceFailed failure))
    (hagree : Agreement (recorded limit source start) (replayed limit (tokens ++ more) start)) :
    Early tokens.length (replayed limit (tokens ++ more) start) := by
  have hconsumed := consumed_lt_of_recorded h hstop
  rw [hagree.consumed] at hconsumed
  refine ⟨?_, hconsumed⟩
  cases heager : replayed limit (tokens ++ more) start with
  | mk stop a =>
      rw [heager] at hconsumed
      cases stop with
      | none =>
          -- all tokens in front of the sentinel and the sentinel itself would have been accepted
          obtain ⟨named, rest, -, -, rfl⟩ := exists_reads_of_parse heager
          have hbody : tokens <+: TokenQueue.body { tokens := tokens ++ more } := by
            rw [TokenQueue.body, List.takeWhile_append_of_pos]
            · exact List.prefix_append _ _
            · simpa using h.kind_ne_eof
          have hlength := hbody.length_le
          simp only [Analyser.consumed, Cursor.after, List.length_append, List.length_singleton]
            at hconsumed
          omega
      | some stop =>
          obtain ⟨d, hrun, -⟩ := parse_eq_some_iff.1 heager
          obtain ⟨c, agenda, -, hhalts⟩ := Cursor.run_eq_iff.1 hrun
          cases hhalts with
          | mismatch | choice => exact .inl ⟨_, rfl⟩
          | starved hdraw => cases hdraw
          | tooDeep => exact .inr ⟨_, rfl⟩

/-- **A parse that its source fails is cut off** where a parse of the queue accepts the last token
given. -/
theorem truncation_of_failure (hsteady : Feed.Steady σ) {e failure : ε}
    (h : Feed.Gives source tokens (.error e)) (more : List Token)
    (hstop : (recorded limit source start).1 = some (.sourceFailed failure)) :
    tokens.length ≤ (replayed limit (tokens ++ more) start).2.consumed ∧
      Truncation e tokens.length (recorded limit source start)
        (replayed limit (tokens ++ more) start) := by
  have hfollows : Feed.Follows (Feed.CopiedBy (σ := σ) (.error e) more) :=
    Feed.follows_copiedBy hsteady nofun
  rcases recorded_cases limit source start with
    ⟨e', rest, hfirst, hparse⟩ | ⟨t, rest, stop, d, hfirst, hrun, hparse⟩
  · obtain ⟨rfl, rfl⟩ := h.of_draw_error hfirst
    rw [hparse]
    exact ⟨Nat.zero_le _, rfl, (throughToken_zero _).symm, Nat.zero_le _, rfl⟩
  · obtain ⟨given, rfl, hmore, hgives⟩ := h.of_draw_ok hfirst
    rw [hparse] at hstop ⊢
    subst hstop
    have hqueue : Feed.CopiedBy (.error e) more rest (⟨given ++ more, t.line⟩ : TokenQueue) :=
      ⟨given, hgives, rfl⟩
    obtain ⟨events, last, feed, stop', d', later, hleads, hdraw, rfl, hrun', hsink, hreached⟩ :=
      Cursor.exists_run_beyond hfollows hqueue hrun
    rw [Cursor.withFeed_first] at hrun'
    have hreplayed : replayed limit (t :: given ++ more) start =
        (stop', .started (d'.report stop')) :=
      parse_of_run (TokenQueue.feed_draw_of_ne hmore) hrun'
    have hevents : (d'.report stop').sink.events = events ++ .accepted last.1 :: later := by
      rw [hsink]
      exact Sink.events_emitAll_recording _
    -- the failure comes after all tokens given, so the last one is the lookahead
    obtain ⟨left, hsplit, hleft⟩ := hgives.of_leads hleads
    obtain ⟨rfl, rfl⟩ := hleft.of_draw_error hdraw
    have hlength : (t :: given).length = (acceptedTokens events ++ [last.1]).length :=
      congrArg List.length hsplit
    rw [hreplayed, hlength, List.length_append]
    refine ⟨?_, rfl, ?_, ?_, Nat.zero_add _⟩
    · rw [Analyser.consumed, Cursor.consumed_report]
      exact Nat.le_trans (Nat.le_add_left _ _) hreached
    · show _ = throughToken _ (d'.report stop').sink.events
      rw [hevents]
      exact (Sink.events_emitAll_recording _).trans (throughToken_append events later last.1).symm
    · show _ ≤ (acceptedTokens (d'.report stop').sink.events).length
      rw [hevents, acceptedTokens_append, acceptedTokens_accepted]
      simp

/-- **Where the source fails**, a parse of the tokens in front of the failure, continued in any way,
goes wrong early, and so does the parse of the source; or reading fails. -/
theorem early_or_truncation (hsteady : Feed.Steady σ) {e : ε}
    (h : Feed.Gives source tokens (.error e)) (more : List Token) :
    (Early tokens.length (replayed limit (tokens ++ more) start) ∧
      Agreement (recorded limit source start) (replayed limit (tokens ++ more) start)) ∨
    (¬ Early tokens.length (replayed limit (tokens ++ more) start) ∧
      Truncation e tokens.length (recorded limit source start)
        (replayed limit (tokens ++ more) start)) := by
  by_cases hfailed : ∃ failure, (recorded limit source start).1 = some (.sourceFailed failure)
  · right
    obtain ⟨failure, hfailed⟩ := hfailed
    obtain ⟨hreached, htruncation⟩ := truncation_of_failure hsteady h more hfailed
    exact ⟨fun hearly => absurd hearly.2 (Nat.not_lt.2 hreached), htruncation⟩
  · left
    have hstop := not_exists.1 hfailed
    have hfollows : Feed.Follows (Feed.CopiedBy (σ := σ) (.error e) more) :=
      Feed.follows_copiedBy hsteady nofun
    have hagree : Agreement (recorded limit source start)
        (replayed limit (tokens ++ more) start) :=
      agreement_of_follows hfollows ⟨tokens, h, rfl⟩ hstop
    exact ⟨early_of_agreement h hstop hagree, hagree⟩

/-- **A parse that goes wrong early does so whatever comes after**: reading did not fail. -/
theorem agreement_of_early (hsteady : Feed.Steady σ) {e : ε}
    (h : Feed.Gives source tokens (.error e)) {more : List Token}
    (hearly : Early tokens.length (replayed limit (tokens ++ more) start)) (other : List Token) :
    Agreement (recorded limit source start) (replayed limit (tokens ++ other) start) := by
  rcases early_or_truncation hsteady h other with ⟨-, hagree⟩ | ⟨-, htruncation⟩
  · exact hagree
  · rcases early_or_truncation hsteady h more with ⟨-, hagree⟩ | ⟨hnot, -⟩
    · exact absurd htruncation.stop ((hagree.ne_of_early hearly).2 e)
    · exact absurd hearly hnot

end

/-! ### Checking while reading -/

/-- **Checking while reading agrees with checking afterwards**, and a failure of the source only
cuts the parse off. If the source has an end, the parse of it and the parse of its tokens give the
same. If it fails after some tokens, the parse of it does not succeed, and it is settled by the
parse of these tokens with anything behind them: either that goes wrong with not all of these
accepted, and the parse of the source is the same, or the parse of the source fails with the
failure, cut off at the last of these tokens. What goes wrong so early is the same whatever comes
behind. -/
theorem check_while_reading (limit : Option Nat) (source : Reader) (start : Rule) :
    match Feed.drain source with
    | (tokens, none, _) =>
        Agreement (recorded limit source start) (replayed limit tokens.toList start)
    | (tokens, some failure, _) =>
        (recorded limit source start).1 ≠ none ∧
        (∀ more : List Token,
          (Early tokens.size (replayed limit (tokens.toList ++ more) start) ∧
            Agreement (recorded limit source start)
              (replayed limit (tokens.toList ++ more) start)) ∨
          (¬ Early tokens.size (replayed limit (tokens.toList ++ more) start) ∧
            Truncation failure tokens.size (recorded limit source start)
              (replayed limit (tokens.toList ++ more) start))) ∧
        ∀ more other : List Token,
          Early tokens.size (replayed limit (tokens.toList ++ more) start) →
            (replayed limit (tokens.toList ++ other) start).1 =
                (replayed limit (tokens.toList ++ more) start).1 ∧
              (replayed limit (tokens.toList ++ other) start).2.sink =
                (replayed limit (tokens.toList ++ more) start).2.sink ∧
              (replayed limit (tokens.toList ++ other) start).2.consumed =
                (replayed limit (tokens.toList ++ more) start).2.consumed := by
  obtain ⟨tokens, outcome, hgives⟩ := Feed.exists_gives source
  cases outcome with
  | ok t =>
      obtain ⟨rest, hdrain⟩ := hgives.drain_ok
      rw [hdrain]
      exact agreement_of_gives Reader.steady hgives
  | error e =>
      obtain ⟨rest, hdrain⟩ := hgives.drain_error
      rw [hdrain]
      refine ⟨?_, early_or_truncation Reader.steady hgives, ?_⟩
      · rcases early_or_truncation Reader.steady hgives [] with
          ⟨hearly, hagree⟩ | ⟨-, htruncation⟩
        · exact (hagree.ne_of_early hearly).1
        · rw [htruncation.stop]
          exact Option.some_ne_none _
      · intro more other hearly
        exact (agreement_of_early Reader.steady hgives hearly more).same
          (agreement_of_early Reader.steady hgives hearly other)

/-! ### Too deep before the failure -/

/-- Parentheses as pieces of a text, whatever comes behind them. -/
theorem exists_cut_parentheses (count : Nat) (passed left : List Char) :
    ∃ pieces, pieces.flatMap Piece.chars = List.replicate count '(' ∧ Cut passed pieces left ∧
      pieces.length = count ∧ ∀ p ∈ pieces, p.token.kind = .leftParenthesis := by
  induction count generalizing passed with
  | zero => exact ⟨[], rfl, .nil _ _, rfl, List.forall_mem_nil _⟩
  | succ count ih =>
      obtain ⟨pieces, hchars, hcut, hlength, hkinds⟩ := ih (passed ++ ([] ++ ['(']))
      have hspells : Spells .leftParenthesis "(" ['('] := .operator (by decide)
      have hfits : (Piece.ofLexeme passed [] ['('] .leftParenthesis "(").Fits passed
          (pieces.flatMap Piece.chars ++ left) := by
        refine ⟨List.forall_mem_nil _, hspells, longest_of_not_goesOn hspells ?_, rfl⟩
        intro d more _ hgoesOn
        cases hgoesOn with
        | word hword => exact Terminal.not_isWord_leftParenthesis hword
        | number hkind => cases hkind
        | operator hkind => rcases hkind with hkind | hkind | hkind <;> cases hkind
      refine ⟨_, ?_, .cons hfits hcut, congrArg Nat.succ hlength,
        List.forall_mem_cons.2 ⟨rfl, hkinds⟩⟩
      rw [List.flatMap_cons, hchars]
      rfl

namespace Cursor

variable {σ ε : Type} [Feed σ ε]

/-- A left parenthesis opens a factor, and an expression is to come. -/
theorem steps_leftParenthesis {limit : Option Nat} {c : Cursor σ} {agenda : Agenda} {t : Token}
    {feed : σ} (hopen : mayOpen limit (openRules agenda).length = true)
    (hahead : c.lookahead.kind = .leftParenthesis) (hdraw : Feed.draw c.feed = (.ok t, feed)) :
    Steps limit c (.part (.rule .factor) :: agenda)
      (c.after [c.lookahead] [.opened .factor, .accepted c.lookahead] (t, feed))
      (.part (.rule .expression) :: .part (.terminal .rightParenthesis) ::
        .close ⟨.factor, c.lookahead.line⟩ :: agenda) := by
  have hbody := Rule.factor_body_leftParenthesis hahead
  exact .step (.opening hopen hbody) (.step (.accept hdraw) .refl)

/-- **Parentheses that nest too deeply** are told by the limit: each of them opens two rules. -/
theorem exists_tooDeep {limit : Nat} {c : Cursor σ} {agenda : Agenda} {tokens : List Token}
    {outcome : Except ε Token} (hgives : Feed.Gives c.feed tokens outcome)
    (hahead : c.lookahead.kind = .leftParenthesis)
    (hkinds : ∀ t ∈ tokens, t.kind = .leftParenthesis)
    (hdeep : limit ≤ (openRules agenda).length + 2 * tokens.length) :
    ∃ e d, c.run (some limit) (.part (.rule .factor) :: agenda) = (some (.tooDeep e), d) := by
  induction tokens generalizing c agenda with
  | nil =>
      have hclosed : mayOpen (some limit) (openRules agenda).length = false := by
        simpa [mayOpen] using hdeep
      exact ⟨_, _, run_of_halts (.tooDeep hclosed)⟩
  | cons t tokens ih =>
      obtain ⟨ht, hmore⟩ := List.forall_mem_cons.1 hkinds
      cases hopen : mayOpen (some limit) (openRules agenda).length with
      | false => exact ⟨_, _, run_of_halts (.tooDeep hopen)⟩
      | true =>
          cases hgives with
          | token hdraw _ hgives =>
              rw [run_of_steps (steps_leftParenthesis hopen hahead hdraw)]
              -- the factor is open now, and the expression in it may be one too many
              cases hopen' : mayOpen (some limit) ((openRules agenda).length + 1) with
              | false => exact ⟨_, _, run_of_halts (.tooDeep hopen')⟩
              | true =>
                  rw [run_of_step (.opening hopen' rfl)]
                  have hdeep' : limit ≤ (openRules agenda).length + 1 + 1 + 2 * tokens.length := by
                    rw [List.length_cons] at hdeep
                    omega
                  exact ih hgives ht hmore hdeep'

end Cursor

/-- A parse of parentheses that nest too deeply is too deep. -/
theorem recorded_tooDeep {σ ε : Type} [Feed σ ε] {limit : Nat} {source : σ} {tokens : List Token}
    {outcome : Except ε Token} (hgives : Feed.Gives source tokens outcome)
    (hkinds : ∀ t ∈ tokens, t.kind = .leftParenthesis) (hdeep : limit + 2 ≤ 2 * tokens.length) :
    ∃ e, (recorded (some limit) source .factor).1 = some (.tooDeep e) := by
  cases hgives with
  | sentinel | failure => exact absurd hdeep (by simp)
  | @token _ rest t tokens _ hfirst _ hgives =>
      obtain ⟨ht, hmore⟩ := List.forall_mem_cons.1 hkinds
      have hrest : limit ≤ (openRules [.part (.terminal .eof)]).length + 2 * tokens.length := by
        rw [List.length_cons] at hdeep
        omega
      obtain ⟨e, d, hrun⟩ :
          ∃ e d, (Cursor.first rest t .recording).run (some limit)
            [.part (.rule .factor), .part (.terminal .eof)] = (some (.tooDeep e), d) :=
        Cursor.exists_tooDeep hgives ht hmore hrest
      rw [recorded, parse_of_run hfirst hrun]
      exact ⟨e, rfl⟩

/-- Parentheses in front of a character that no token starts with. -/
def openParentheses (count : Nat) : String :=
  String.ofList (List.replicate count '(' ++ ['#'])

/-- Of such a text the parentheses are read and the character is not. -/
theorem exists_gives_openParentheses (count : Nat) :
    ∃ tokens failure,
      Feed.Gives (Reader.ofText (openParentheses count)) tokens (.error failure) ∧
        tokens.length = count ∧ ∀ t ∈ tokens, t.kind = .leftParenthesis := by
  obtain ⟨pieces, hchars, hcut, hlength, hkinds⟩ := exists_cut_parentheses count [] ([] ++ ['#'])
  have hstuck : Stuck ['#'] := by
    refine .fault (by decide) ?_
    rintro spelling hfront ⟨kind, text, hspells⟩
    have hfront : spelling <+: '#' :: [] := hfront
    obtain ⟨lexeme, hread, -⟩ := Lexeme.exists_read_of_spells hspells hfront
    have hnone : (Lexeme.read '#' []).toOption = none := by decide
    rw [hread] at hnone
    cases hnone
  have htext : (openParentheses count).toList =
      pieces.flatMap Piece.chars ++ ([] ++ ['#']) := by
    rw [openParentheses, String.toList_ofList, hchars]
    rfl
  have hat := Reader.at_ofText (openParentheses count) "<string>"
  rw [htext] at hat
  refine ⟨_, _, hat.gives_of_cut hcut (List.forall_mem_nil _) hstuck, ?_, ?_⟩
  · rw [List.length_map, hlength]
  · intro t ht
    obtain ⟨p, hp, rfl⟩ := List.mem_map.1 ht
    exact hkinds p hp

/-- **The limit may be hit before the source fails**: after a thousand parentheses the source fails,
and no parse of these within a thousand open rules, continued in any way, ends in a syntax error;
but the parse of the source does not end in its failure. -/
theorem check_openParentheses :
    ∃ tokens failure last,
      Feed.drain (Reader.ofText (openParentheses 1000)) = (tokens, some failure, last) ∧
      (∀ more e, (replayed (some 1000) (tokens.toList ++ more) .factor).1 ≠
        some (.syntaxError e)) ∧
      (recorded (some 1000) (Reader.ofText (openParentheses 1000)) .factor).1 ≠
        some (.sourceFailed failure) := by
  obtain ⟨tokens, failure, hgives, hlength, hkinds⟩ := exists_gives_openParentheses 1000
  obtain ⟨last, hdrain⟩ := hgives.drain_error
  have hdeep : 1000 + 2 ≤ 2 * tokens.length := by omega
  obtain ⟨error, hstop⟩ := recorded_tooDeep hgives hkinds hdeep
  have hunfailed : ∀ e, (recorded (some 1000) (Reader.ofText (openParentheses 1000)) .factor).1 ≠
      some (.sourceFailed e) := by
    intro e
    rw [hstop]
    exact nofun
  refine ⟨_, failure, last, hdrain, ?_, hunfailed failure⟩
  intro more e hrejected
  have hfollows : Feed.Follows (Feed.CopiedBy (σ := Reader) (.error failure) more) :=
    Feed.follows_copiedBy Reader.steady nofun
  have hagree : Agreement (recorded (some 1000) (Reader.ofText (openParentheses 1000)) .factor)
      (replayed (some 1000) (tokens ++ more) .factor) :=
    agreement_of_follows hfollows ⟨tokens, hgives, rfl⟩ hunfailed
  have hsame := hagree.stop
  rw [List.toList_toArray] at hrejected
  rw [hrejected, hstop] at hsame
  cases hsame

end SccSharp
