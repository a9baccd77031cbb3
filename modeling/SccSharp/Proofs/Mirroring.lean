import SccSharp.Check
import SccSharp.Proofs.Draining
import SccSharp.Proofs.Exchange

/-!
# Sources that mirror each other

One feed mirrors another if draws from the two give the same, but that their failures may be told in
different words (`Feed.Mirrors`). All that is made of a feed is then the same for both: the tokens
it gives, and how a parse of it ends, with its events, its count and its lookahead.

In contrast to a feed that only follows another one, a run goes over even where its source fails,
since the other source fails there as well.

## Main Definitions

* `Feed.Mirrors` — feeds that give the same, failures seen through a function
* `SameAnalysis` — analyses that come to the same, failures seen through a function

## Main Statements

* `Feed.Gives.mirrored` — what a feed gives is given by the feed that mirrors it
* `Cursor.run_mirrored`, `analyse_mirrored` — so are the ends of runs and of analyses
-/

namespace SccSharp

/-! ### Feeds -/

/-- **One feed mirrors another**: a draw gives what a draw from the other gives, its failures seen
through `f`, and what is left of the two is related again. -/
def Feed.Mirrors {σ τ ε ε' : Type} [Feed σ ε] [Feed τ ε'] (f : ε' → ε) (related : σ → τ → Prop) :
    Prop :=
  ∀ s q, related s q →
    (Feed.draw s).1 = (Feed.draw q).1.mapError f ∧ related (Feed.draw s).2 (Feed.draw q).2

section

variable {σ τ ε ε' : Type} [Feed σ ε] [Feed τ ε'] {f : ε' → ε} {related : σ → τ → Prop}
variable {s s' : σ} {q : τ}

namespace Feed.Mirrors

/-- A draw, told from the feed that is mirrored. -/
theorem draw_eq {outcome : Except ε' Token} {q' : τ} (h : Mirrors f related)
    (hrelated : related s q) (hdraw : draw q = (outcome, q')) :
    draw s = (outcome.mapError f, (draw s).2) := by
  have hresult := (h s q hrelated).1
  rw [hdraw] at hresult
  exact Prod.ext hresult rfl

/-- A feed that is mirrored is followed. -/
theorem follows (h : Mirrors f related) : Follows related := by
  intro s q t s' hrelated hdraw
  obtain ⟨hresult, hrest⟩ := h s q hrelated
  rw [hdraw] at hresult hrest
  cases hdraw' : draw q with
  | mk outcome q' =>
      rw [hdraw'] at hresult hrest
      cases outcome with
      | error e => cases hresult
      | ok t' =>
          cases hresult
          exact ⟨q', rfl, hrest⟩

/-- Where a feed fails, so does the one it mirrors. -/
theorem exists_failure {e : ε} (h : Mirrors f related) (hrelated : related s q)
    (hdraw : draw s = (.error e, s')) : ∃ e' q', draw q = (.error e', q') ∧ e = f e' := by
  have hresult := (h s q hrelated).1
  rw [hdraw] at hresult
  cases hdraw' : draw q with
  | mk outcome q' =>
      rw [hdraw'] at hresult
      cases outcome with
      | ok t => cases hresult
      | error e' =>
          cases hresult
          exact ⟨e', q', rfl, rfl⟩

end Feed.Mirrors

/-- **What a feed gives** is given by the feed that mirrors it. -/
theorem Feed.Gives.mirrored {tokens : List Token} {outcome : Except ε' Token}
    (h : Gives q tokens outcome) (hmirrors : Mirrors f related) (hrelated : related s q) :
    Gives s tokens (outcome.mapError f) := by
  induction h generalizing s with
  | sentinel hdraw hkind => exact .sentinel (hmirrors.draw_eq hrelated hdraw) hkind
  | failure hdraw => exact .failure (hmirrors.draw_eq hrelated hdraw)
  | token hdraw hkind _ ih =>
      have hrest := (hmirrors _ _ hrelated).2
      rw [hdraw] at hrest
      exact .token (hmirrors.draw_eq hrelated hdraw) hkind (ih hrest)

/-! ### Runs and analyses -/

variable {limit : Option Nat}

/-- **A run goes over** to the feed that is mirrored, whatever stops it. -/
theorem Cursor.run_mirrored {c d : Cursor σ} {agenda : Agenda} {stop : Option (Stop ε)}
    (hmirrors : Feed.Mirrors f related) (hrelated : related c.feed q)
    (h : c.run limit agenda = (stop, d)) :
    ∃ stop' q', (c.withFeed q).run limit agenda = (stop', d.withFeed q') ∧
      stop = stop'.map (Stop.map f) := by
  by_cases hfailed : ∃ e, stop = some (.sourceFailed e)
  · obtain ⟨e, rfl⟩ := hfailed
    obtain ⟨c', rest, left, hsteps, hdraw, rfl⟩ := exists_starved h
    obtain ⟨q', hsteps', hrelated'⟩ := hsteps.withFeed hmirrors.follows hrelated
    obtain ⟨e', left', hdraw', rfl⟩ := hmirrors.exists_failure hrelated' hdraw
    refine ⟨some (.sourceFailed e'), left', ?_, rfl⟩
    rw [run_of_steps hsteps']
    exact run_of_halts (.starved hdraw')
  · exact run_withFeed f hmirrors.follows hrelated h (not_exists.1 hfailed)

/-- **Two analyses come to the same**: to the same verdict, errors with all their entries included,
or to the same stop, with failures seen through `f`; and in their sinks, counts and lookaheads. -/
structure SameAnalysis (f : ε' → ε) (p : Except (Stop ε) Verdict × Analyser σ)
    (p' : Except (Stop ε') Verdict × Analyser τ) : Prop where
  result : p.1 = p'.1.mapError (Stop.map f)
  sink : p.2.sink = p'.2.sink
  consumed : p.2.consumed = p'.2.consumed
  lookahead : p.2.lookahead? = p'.2.lookahead?

/-- Analyses come to the same if the parses they tell of do. -/
theorem sameAnalysis_of_stops {a b : Analyser σ} {a' b' : Analyser τ}
    {start : Rule} {stop : Option (Stop ε')}
    (h : a.parse limit start = (stop.map (Stop.map f), b))
    (h' : a'.parse limit start = (stop, b')) (hsink : b.sink = b'.sink)
    (hconsumed : b.consumed = b'.consumed) (hlookahead : b.lookahead? = b'.lookahead?) :
    SameAnalysis f (a.analyse limit start) (a'.analyse limit start) := by
  rw [Analyser.parse] at h h'
  rw [Analyser.analyse, Analyser.analyse, Analyser.analyseOn, Analyser.analyseOn, h, h']
  cases stop with
  | none => exact ⟨rfl, hsink, hconsumed, hlookahead⟩
  | some stop => cases stop <;> exact ⟨rfl, hsink, hconsumed, hlookahead⟩

/-- **An analysis goes over** to the feed that is mirrored. -/
theorem analyse_mirrored (hmirrors : Feed.Mirrors f related) (hrelated : related s q)
    (limit : Option Nat) (start : Rule) (sink : Sink) :
    SameAnalysis f ((Analyser.fresh s sink).analyse limit start)
      ((Analyser.fresh q sink).analyse limit start) := by
  cases hfirst : Feed.draw s with
  | mk outcome rest =>
      cases outcome with
      | error e =>
          obtain ⟨e', rest', hfirst', rfl⟩ := hmirrors.exists_failure hrelated hfirst
          exact sameAnalysis_of_stops (parse_of_draw_error start hfirst)
            (parse_of_draw_error start hfirst') rfl rfl rfl
      | ok t =>
          obtain ⟨rest', hfirst', hrelated'⟩ := hmirrors.follows s q t rest hrelated hfirst
          cases hrun : (Cursor.first rest t sink).run limit
            [.part (.rule start), .part (.terminal .eof)] with
          | mk stop d =>
              obtain ⟨stop', left, hrun', rfl⟩ := Cursor.run_mirrored hmirrors hrelated' hrun
              rw [Cursor.withFeed_first] at hrun'
              refine sameAnalysis_of_stops (parse_of_run hfirst hrun)
                (parse_of_run hfirst' hrun') ?_ ?_ ?_ <;>
                rw [Cursor.report_withFeed d left f stop'] <;> rfl

end

/-! ### Tokens of a source -/

/-- The tokens of a source are those it gives, with the sentinel, unless it fails. -/
theorem Feed.Gives.tokensOf_eq {source : Reader} {tokens : List Token}
    {outcome : Except SourceFailure Token} (h : Gives source tokens outcome) :
    tokensOf source = outcome.map fun t => tokens ++ [t] := by
  cases outcome with
  | ok t =>
      obtain ⟨rest, hdrain⟩ := h.drain_ok
      rw [tokensOf, hdrain]
      rfl
  | error e =>
      obtain ⟨rest, hdrain⟩ := h.drain_error
      rw [tokensOf, hdrain]
      rfl

/-- **The tokens of a source** are those of the source it mirrors. -/
theorem tokensOf_mirrored {f : SourceFailure → SourceFailure} {related : Reader → Reader → Prop}
    (hmirrors : Feed.Mirrors f related) {source source' : Reader}
    (hrelated : related source source') :
    tokensOf source = (tokensOf source').mapError f := by
  obtain ⟨tokens, outcome, hgives⟩ := Feed.exists_gives source'
  rw [(hgives.mirrored hmirrors hrelated).tokensOf_eq, hgives.tokensOf_eq]
  cases outcome <;> rfl

end SccSharp
