import SccSharp.Proofs.Outcome

/-!
# One source in place of another

A run takes notice of its source only by drawing from it. So if every token that one feed gives is
given by another one too (`Feed.Follows`), a run over the first is a run over the second with the
same lookaheads, counts and events, as far as the first does not fail.

A step goes over to the other feed (`Step.withFeed`), and so do many; a halt does unless it is a
failure of the source (`Halts.withFeed`). Where the first feed fails, the second run has come as far
and may go on from there.

## Main Definitions

* `Feed.Follows` — tokens of one feed are drawn from another
* `Cursor.withFeed` — a cursor with another feed behind it
* `Stop.map` — a stop with another kind of failure

## Main Statements

* `Steps.withFeed` — steps over one feed are steps over the other
* `run_withFeed` — so is a run that the source does not fail
-/

namespace SccSharp

/-- **One feed follows another**: what is drawn from the first can be drawn from the second, and
what is left of them is related again. -/
def Feed.Follows {σ τ ε ε' : Type} [Feed σ ε] [Feed τ ε'] (related : σ → τ → Prop) : Prop :=
  ∀ s q t s', related s q → Feed.draw s = (.ok t, s') →
    ∃ q', Feed.draw q = (.ok t, q') ∧ related s' q'

/-- A stop with its failure, if it is one, seen as another kind of failure. -/
def Stop.map {ε ε' : Type} (f : ε' → ε) : Stop ε' → Stop ε
  | .syntaxError e => .syntaxError e
  | .sourceFailed e => .sourceFailed (f e)
  | .tooDeep e => .tooDeep e
  | .misused m => .misused m

namespace Cursor

variable {σ τ ε ε' : Type}

/-- The same cursor over another feed. -/
def withFeed (c : Cursor σ) (feed : τ) : Cursor τ where
  feed := feed
  lookahead := c.lookahead
  consumed := c.consumed
  sink := c.sink

@[simp] theorem withFeed_first (feed : σ) (t : Token) (sink : Sink) (other : τ) :
    (Cursor.first feed t sink).withFeed other = .first other t sink := rfl

/-- Reporting does not count. -/
@[simp] theorem consumed_report (c : Cursor σ) (stop : Option (Stop ε)) :
    (c.report stop).consumed = c.consumed := by
  cases stop <;> rfl

/-- What is reported at the end does not depend on the feed. -/
theorem report_withFeed (c : Cursor σ) (feed : τ) (f : ε' → ε) (stop : Option (Stop ε')) :
    (c.withFeed feed).report stop = (c.report (stop.map (Stop.map f))).withFeed feed := by
  cases stop with
  | none => rfl
  | some stop => rfl

variable [Feed σ ε] [Feed τ ε'] {limit : Option Nat} {related : σ → τ → Prop}
variable {c d : Cursor σ} {agenda agenda' : Agenda} {feed : τ}

/-! ### Runs over another feed -/

/-- **A step goes over** to a feed that follows. -/
theorem Step.withFeed (hfollows : Feed.Follows related) (h : Step limit c agenda d agenda')
    (hfeed : related c.feed feed) :
    ∃ feed', Step limit (c.withFeed feed) agenda (d.withFeed feed') agenda' ∧
      related d.feed feed' := by
  cases h with
  | close => exact ⟨feed, .close, hfeed⟩
  | continuation => exact ⟨feed, .continuation, hfeed⟩
  | accept hdraw =>
      obtain ⟨feed', hdraw', hfeed'⟩ := hfollows _ _ _ _ hfeed hdraw
      exact ⟨feed', .accept hdraw', hfeed'⟩
  | opening hopen hbody => exact ⟨feed, .opening hopen hbody, hfeed⟩

/-- **Steps go over** to a feed that follows. -/
theorem Steps.withFeed (hfollows : Feed.Follows related) (h : Steps limit c agenda d agenda')
    (hfeed : related c.feed feed) :
    ∃ feed', Steps limit (c.withFeed feed) agenda (d.withFeed feed') agenda' ∧
      related d.feed feed' := by
  induction h generalizing feed with
  | refl => exact ⟨feed, .refl, hfeed⟩
  | step hstep _ ih =>
      obtain ⟨feed', hstep', hfeed'⟩ := hstep.withFeed hfollows hfeed
      obtain ⟨last, hsteps, hlast⟩ := ih hfeed'
      exact ⟨last, .step hstep' hsteps, hlast⟩

/-- **A halt goes over** to any other feed, unless it is a failure of the source. -/
theorem Halts.withFeed (f : ε' → ε) {stop : Option (Stop ε)} (h : Halts limit c agenda stop d)
    (hstop : ∀ e, stop ≠ some (.sourceFailed e)) (feed : τ) :
    ∃ stop', Halts limit (c.withFeed feed) agenda stop' (d.withFeed feed) ∧
      stop = stop'.map (Stop.map f) := by
  cases h with
  | done => exact ⟨_, .done, rfl⟩
  | mismatch hne => exact ⟨_, .mismatch hne, rfl⟩
  | starved => exact absurd rfl (hstop _)
  | choice hopen hbody => exact ⟨_, .choice hopen hbody, rfl⟩
  | tooDeep hclosed => exact ⟨_, .tooDeep hclosed, rfl⟩

/-- **A run goes over** to a feed that follows, unless its source fails. -/
theorem run_withFeed (f : ε' → ε) (hfollows : Feed.Follows related) (hfeed : related c.feed feed)
    {stop : Option (Stop ε)} (h : c.run limit agenda = (stop, d))
    (hstop : ∀ e, stop ≠ some (.sourceFailed e)) :
    ∃ stop' feed', (c.withFeed feed).run limit agenda = (stop', d.withFeed feed') ∧
      stop = stop'.map (Stop.map f) := by
  obtain ⟨c', agenda', hsteps, hhalts⟩ := run_eq_iff.1 h
  obtain ⟨feed', hsteps', -⟩ := hsteps.withFeed hfollows hfeed
  obtain ⟨stop', hhalts', hsame⟩ := hhalts.withFeed f hstop feed'
  exact ⟨stop', feed', run_eq_iff.2 ⟨_, _, hsteps', hhalts'⟩, hsame⟩

/-- A run that its source fails comes to a terminal that is accepted, and there the draw fails. -/
theorem exists_starved {e : ε} (h : c.run limit agenda = (some (.sourceFailed e), d)) :
    ∃ c' rest feed, Steps limit c agenda c' (.part (.terminal c'.lookahead.kind) :: rest) ∧
      Feed.draw c'.feed = (.error e, feed) ∧
      d = c'.after [] [.accepted c'.lookahead] (c'.lookahead, feed) := by
  obtain ⟨c', agenda', hsteps, hhalts⟩ := run_eq_iff.1 h
  cases hhalts with
  | starved hdraw => exact ⟨c', _, _, hsteps, hdraw, rfl⟩

/-! ### Events are never taken back -/

/-- A halt emits events and accepts nothing. -/
theorem Halts.exists_events {stop : Option (Stop ε)} (h : Halts limit c agenda stop d) :
    ∃ events, d.sink = c.sink.emitAll events ∧ d.consumed = c.consumed := by
  cases h with
  | done | tooDeep => exact ⟨[], rfl, rfl⟩
  | mismatch => exact ⟨[.rejected _ _], rfl, rfl⟩
  | starved => exact ⟨[.accepted _], rfl, rfl⟩
  | choice => exact ⟨[.opened _, .rejected _ _], rfl, rfl⟩

/-- **A run adds events** to those emitted before it, and never counts back. -/
theorem exists_events_of_run {stop : Option (Stop ε)} (h : c.run limit agenda = (stop, d)) :
    ∃ events, (d.report stop).sink = c.sink.emitAll events ∧ c.consumed ≤ d.consumed := by
  obtain ⟨c', agenda', hsteps, hhalts⟩ := run_eq_iff.1 h
  obtain ⟨first, -, hafter⟩ := hsteps.exists_after
  obtain ⟨second, hsink, hconsumed⟩ := hhalts.exists_events
  have hrun : d.sink = c.sink.emitAll (first ++ second) := by
    rw [hsink, Sink.emitAll_append, hafter]
    rfl
  have hle : c.consumed ≤ d.consumed := by
    rw [hconsumed, hafter]
    exact Nat.le_add_right _ _
  cases stop with
  | none =>
      refine ⟨first ++ second ++ [.succeeded], ?_, hle⟩
      rw [Sink.emitAll_append, ← hrun]
      rfl
  | some stop => exact ⟨first ++ second, hrun, hle⟩

/-- **Where its source fails a run, a run over a queue that follows goes on**: it has emitted the
same events, the token is accepted, and more may come after that. -/
theorem exists_run_beyond {e : ε} {related : σ → TokenQueue → Prop} {q : TokenQueue}
    (hfollows : Feed.Follows related) (hfeed : related c.feed q)
    (h : c.run limit agenda = (some (.sourceFailed e), d)) :
    ∃ events last feed stop' d' later,
      Feed.Leads c.front (acceptedTokens events) last ∧ Feed.draw last.2 = (.error e, feed) ∧
      d = c.after (acceptedTokens events) (events ++ [.accepted last.1]) (last.1, feed) ∧
      (c.withFeed q).run limit agenda = (stop', d') ∧
      (d'.report stop').sink = c.sink.emitAll (events ++ .accepted last.1 :: later) ∧
      c.consumed + ((acceptedTokens events).length + 1) ≤ d'.consumed := by
  obtain ⟨c', rest, feed, hsteps, hdraw, rfl⟩ := exists_starved h
  obtain ⟨events, hleads, hafter⟩ := hsteps.exists_after
  obtain ⟨q', hsteps', -⟩ := hsteps.withFeed hfollows hfeed
  generalize c'.front = last at hleads hafter
  subst hafter
  have haccept : Step limit ((c.after (acceptedTokens events) events last).withFeed q')
      (.part (.terminal last.1.kind) :: rest)
      (((c.after (acceptedTokens events) events last).withFeed q').after [last.1] [.accepted last.1]
        q'.draw) rest := .accept rfl
  cases hrun : (((c.after (acceptedTokens events) events last).withFeed q').after [last.1]
    [.accepted last.1] q'.draw).run limit rest with
  | mk stop' d' =>
      obtain ⟨later, hsink, hconsumed⟩ := exists_events_of_run hrun
      refine ⟨events, last, feed, stop', d', later, hleads, hdraw, ?_, ?_, ?_, hconsumed⟩
      · rw [after_after, List.append_nil]
        rfl
      · rw [← hrun]
        exact run_of_steps (hsteps'.trans (.step haccept .refl))
      · rw [hsink, Sink.emitAll_append]
        rfl

end Cursor

end SccSharp
