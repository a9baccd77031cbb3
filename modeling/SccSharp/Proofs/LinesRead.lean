import SccSharp.Proofs.Laziness

/-!
# How much of a source is read

A parse reads no line before it needs it. Where it ends in front of the end of its source, the lines
it has read are those up to the token or the text that it ends at, and whatever comes behind them
could be exchanged for anything else. Otherwise it has read the whole source.

A reader advances (`Reader.Advances`) while its draws do not meet the end: it takes lines from the
front of its script and counts them. Steps of a run over it advance too, and they are steps over
every source that starts with the same lines (`Steps.before_end`). Where a run stands when it halts
is told by the token or the report it halts at (`Reader.StandsAt`).

## Main Definitions

* `Reading.Exhausts` — all lines up to the end of a source
* `Reader.Advances` — lines taken from a script
* `Reader.Shows`, `Reader.StandsAt` — what a token, and what a stop, tells of a reader

## Main Statements

* `recorded_before_end` — a parse that ends in front of the end of its source
* `recorded_to_end` — a parse that ends behind it
* `recorded_standsAt` — which of them it is, and on which line
-/

namespace SccSharp

/-! ### Lines taken from a script -/

/-- **A whole source**: the lines up to the end of the script, or up to the empty line in it. -/
def Reading.Exhausts (script left : List Reading) : Prop :=
  ∃ lines, (∀ reading ∈ lines, reading.isLine = true) ∧
    (script = lines ∧ left = [] ∨ script = lines ++ .line [] :: left)

/-- More lines in front belong to the source. -/
theorem Reading.Exhausts.append {script left read : List Reading} (h : Exhausts script left)
    (hread : ∀ reading ∈ read, reading.isLine = true) : Exhausts (read ++ script) left := by
  obtain ⟨lines, hlines, hscript⟩ := h
  refine ⟨read ++ lines, fun reading hmem => ?_, ?_⟩
  · rcases List.mem_append.1 hmem with hmem | hmem
    · exact hread reading hmem
    · exact hlines reading hmem
  · rcases hscript with ⟨rfl, rfl⟩ | rfl
    · exact .inl ⟨rfl, rfl⟩
    · exact .inr (List.append_assoc ..).symm

/-- **Seeking that finds text** takes lines, and would find it whatever came behind them. -/
theorem seek_before_end {p p' : Place} {script left : List Reading} {c : Char} {rest : List Char}
    (h : seek p script = (.text c rest, p', left)) :
    ∃ read, script = read ++ left ∧ (∀ reading ∈ read, reading.isLine = true) ∧
      p'.linesRead = p.linesRead + read.length ∧
      ∀ other, seek p (read ++ other) = (.text c rest, p', other) := by
  induction script generalizing p with
  | nil =>
      unfold seek at h
      split at h
      · next hrest =>
          cases h
          exact ⟨[], rfl, List.forall_mem_nil _, rfl, fun other => p.seek_of_skipBlanks other hrest⟩
      · cases h
  | cons reading script ih =>
      unfold seek at h
      split at h
      · next hrest =>
          cases h
          exact ⟨[], rfl, List.forall_mem_nil _, rfl, fun other => p.seek_of_skipBlanks other hrest⟩
      · next hblank =>
          split at h
          · cases h
          · cases h
          · next text hne =>
              obtain ⟨d, line, rfl⟩ := List.exists_cons_of_ne_nil fun h => hne h
              obtain ⟨read, hscript, hlines, hcount, hothers⟩ := ih h
              refine ⟨.line (d :: line) :: read, congrArg (_ :: ·) hscript,
                List.forall_mem_cons.2 ⟨rfl, hlines⟩, ?_, fun other => ?_⟩
              · rw [hcount, Place.linesRead_startLine, List.length_cons]
                omega
              · exact (Place.seek_line_of_skipBlanks _ hblank).trans (hothers other)

/-- **Seeking that finds the end** takes the whole source. -/
theorem seek_to_end {p p' : Place} {script left : List Reading}
    (h : seek p script = (.ended, p', left)) : Reading.Exhausts script left := by
  induction script generalizing p with
  | nil =>
      unfold seek at h
      split at h
      · cases h
      · cases h
        exact ⟨[], List.forall_mem_nil _, .inl ⟨rfl, rfl⟩⟩
  | cons reading script ih =>
      unfold seek at h
      split at h
      · cases h
      · split at h
        · cases h
        · cases h
          exact ⟨[], List.forall_mem_nil _, .inr rfl⟩
        · next text hne =>
            obtain ⟨d, line, rfl⟩ := List.exists_cons_of_ne_nil fun h => hne h
            have hread : ∀ reading ∈ [Reading.line (d :: line)], reading.isLine = true :=
              List.forall_mem_singleton.2 rfl
            exact (ih h).append hread

/-! ### Readers that advance -/

namespace Reader

/-- The same reader with other readings to come. -/
def withScript (r : Reader) (script : List Reading) : Reader :=
  { r with script := script }

/-- **A reader advances**: it takes lines from its script, counts them, and does not meet the
end. -/
structure Advances (r : Reader) (read : List Reading) (r' : Reader) : Prop where
  before : r.ended = false
  after : r'.ended = false
  script : r.script = read ++ r'.script
  lines : ∀ reading ∈ read, reading.isLine = true
  count : r'.place.linesRead = r.place.linesRead + read.length

variable {r r' r'' : Reader} {read more : List Reading}

theorem Advances.refl (h : r.ended = false) : r.Advances [] r :=
  ⟨h, h, rfl, List.forall_mem_nil _, rfl⟩

theorem Advances.trans (h : r.Advances read r') (h' : r'.Advances more r'') :
    r.Advances (read ++ more) r'' where
  before := h.before
  after := h'.after
  script := by rw [h.script, h'.script, List.append_assoc]
  lines := by
    intro reading hmem
    rcases List.mem_append.1 hmem with hmem | hmem
    · exact h.lines reading hmem
    · exact h'.lines reading hmem
  count := by rw [h'.count, h.count, List.length_append, Nat.add_assoc]

/-- **A draw in front of the end** takes lines, and gives the same whatever comes behind them. -/
theorem advances_of_draw {result : Except SourceFailure Token} (h : r.draw = (result, r'))
    (hended : r'.ended = false) (hread : ∀ reason, result ≠ .error (.unreadable reason)) :
    ∃ read, r.Advances read r' ∧
      ∀ other, (r.withScript (read ++ other)).draw = (result, r'.withScript other) := by
  have hdrawn := r.drawn
  rw [h] at hdrawn
  dsimp only at hdrawn
  cases hdrawn with
  | exhausted hended' => exact absurd (hended'.symm.trans hended) Bool.noConfusion
  | ended => cases hended
  | unreadable => exact absurd rfl (hread _)
  | malformed hfresh hseek hfault =>
      obtain ⟨read, hscript, hlines, hcount, hothers⟩ := seek_before_end hseek
      exact ⟨read, ⟨hfresh, hended, hscript, hlines, hcount⟩, fun other =>
        (Drawn.malformed (r := r.withScript (read ++ other)) hfresh (hothers other) hfault).draw_eq⟩
  | token hfresh hseek hlexeme =>
      obtain ⟨read, hscript, hlines, hcount, hothers⟩ := seek_before_end hseek
      exact ⟨read, ⟨hfresh, hended, hscript, hlines, hcount⟩, fun other =>
        (Drawn.token (r := r.withScript (read ++ other)) hfresh (hothers other) hlexeme).draw_eq⟩

/-- **A draw that meets the end** takes the whole source. -/
theorem exhausts_of_draw (hfresh : r.ended = false) (hended : r.draw.2.ended = true) :
    Reading.Exhausts r.script r.draw.2.script := by
  have hdrawn := r.drawn
  generalize r.draw.1 = result at hdrawn
  generalize r.draw.2 = r' at hdrawn hended
  cases hdrawn with
  | exhausted => exact absurd (hfresh.symm.trans hended) Bool.noConfusion
  | ended _ hseek => exact seek_to_end hseek
  | unreadable hfresh' | malformed hfresh' | token hfresh' =>
      exact absurd (hfresh'.symm.trans hended) Bool.noConfusion

/-- A draw of a reader that has met the end leaves it as it is. -/
theorem eq_of_draw_of_ended {result : Except SourceFailure Token} (hended : r.ended = true)
    (h : r.draw = (result, r')) : r' = r := by
  rw [draw_of_ended hended] at h
  exact (Prod.mk.inj h).2.symm

/-! ### What a token tells of a reader -/

/-- **A token shows where a reader stands** that has given it last: on its line, and at the end if
it is the sentinel. -/
structure Shows (r : Reader) (t : Token) : Prop where
  ended : r.ended = true ↔ t.kind = .eof
  line : t.line = r.line

/-- What has been drawn shows where the reader stands. -/
theorem shows_of_draw {t : Token} (h : r.draw = (.ok t, r')) : r'.Shows t := by
  have hended := r.ended_draw_iff
  have hline := line_of_draw (congrArg Prod.fst h)
  rw [h] at hended hline
  refine ⟨hended.trans ⟨?_, fun ht => ⟨t, rfl, ht⟩⟩, hline⟩
  rintro ⟨t', ht', hkind⟩
  cases ht'
  exact hkind

end Reader

/-! ### Runs over a reader -/

namespace Cursor

variable {limit : Option Nat} {c d : Cursor Reader} {agenda agenda' : Agenda}

/-- A step keeps the lookahead showing where the reader stands. -/
theorem Step.shows (h : Step limit c agenda d agenda') (hshows : c.feed.Shows c.lookahead) :
    d.feed.Shows d.lookahead := by
  cases h with
  | close | continuation | opening => exact hshows
  | accept hdraw => exact Reader.shows_of_draw hdraw

/-- So do steps. -/
theorem Steps.shows (h : Steps limit c agenda d agenda') (hshows : c.feed.Shows c.lookahead) :
    d.feed.Shows d.lookahead := by
  induction h with
  | refl => exact hshows
  | step hstep _ ih => exact ih (hstep.shows hshows)

/-- **Steps in front of the end** advance, and are steps over every source with the same lines. -/
theorem Steps.before_end (h : Steps limit c agenda d agenda') (hend : d.feed.ended = false) :
    ∃ read, c.feed.Advances read d.feed ∧
      ∀ other, Steps limit (c.withFeed (c.feed.withScript (read ++ other))) agenda
        (d.withFeed (d.feed.withScript other)) agenda' := by
  induction h with
  | refl => exact ⟨[], .refl hend, fun _ => .refl⟩
  | step hstep _ ih =>
      obtain ⟨more, hmore, hsteps⟩ := ih hend
      cases hstep with
      | close => exact ⟨more, hmore, fun other => .step .close (hsteps other)⟩
      | continuation => exact ⟨more, hmore, fun other => .step .continuation (hsteps other)⟩
      | accept hdraw =>
          obtain ⟨read, hread, hothers⟩ := Reader.advances_of_draw hdraw hmore.before nofun
          refine ⟨read ++ more, hread.trans hmore, fun other => .step (.accept ?_) (hsteps other)⟩
          rw [List.append_assoc]
          exact hothers (more ++ other)
      | opening hopen hbody =>
          exact ⟨more, hmore, fun other => .step (.opening hopen hbody) (hsteps other)⟩

/-- A step behind the end reads nothing. -/
theorem Step.feed_of_ended (h : Step limit c agenda d agenda') (hended : c.feed.ended = true) :
    d.feed = c.feed := by
  cases h with
  | close | continuation | opening => rfl
  | accept hdraw => exact Reader.eq_of_draw_of_ended hended hdraw

/-- Neither do steps. -/
theorem Steps.feed_of_ended (h : Steps limit c agenda d agenda') (hended : c.feed.ended = true) :
    d.feed = c.feed := by
  induction h with
  | refl => rfl
  | step hstep _ ih =>
      have hsame := hstep.feed_of_ended hended
      rw [ih (hsame ▸ hended), hsame]

/-- **Steps over the end** take the whole source. -/
theorem Steps.to_end (h : Steps limit c agenda d agenda') (hfresh : c.feed.ended = false)
    (hend : d.feed.ended = true) : Reading.Exhausts c.feed.script d.feed.script := by
  induction h with
  | refl => exact absurd (hfresh.symm.trans hend) Bool.noConfusion
  | @step c c' d agenda agenda' last hstep hsteps ih =>
      cases hmiddle : c'.feed.ended with
      | false =>
          obtain ⟨read, hread, -⟩ := (Steps.step hstep .refl).before_end hmiddle
          rw [hread.script]
          exact (ih hmiddle hend).append hread.lines
      | true =>
          -- the end is met here, and nothing is read any more
          rw [hsteps.feed_of_ended hmiddle]
          cases hstep with
          | close | continuation | opening =>
              exact absurd (hfresh.symm.trans hmiddle) Bool.noConfusion
          | @accept next feed _ hdraw =>
              have hended : c.feed.draw.2.ended = true := (congrArg (·.2.ended) hdraw).trans hmiddle
              have hwhole := Reader.exhausts_of_draw hfresh hended
              rw [show c.feed.draw = _ from hdraw] at hwhole
              exact hwhole

/-- A halt that is no failure of the source draws nothing, and is one over every source. -/
theorem Halts.anywhere {stop : Option (Stop SourceFailure)} (h : Halts limit c agenda stop d)
    (hstop : ∀ e, stop ≠ some (.sourceFailed e)) :
    d.feed = c.feed ∧ ∀ r : Reader, Halts limit (c.withFeed r) agenda stop (d.withFeed r) := by
  cases h with
  | done => exact ⟨rfl, fun _ => .done⟩
  | mismatch hne => exact ⟨rfl, fun _ => .mismatch hne⟩
  | starved => exact absurd rfl (hstop _)
  | choice hopen hbody => exact ⟨rfl, fun _ => .choice hopen hbody⟩
  | tooDeep hclosed => exact ⟨rfl, fun _ => .tooDeep hclosed⟩

/-- **A run that ends in front of the end** advances, and is a run over every source with the same
lines. -/
theorem run_before_end {stop : Option (Stop SourceFailure)} (h : c.run limit agenda = (stop, d))
    (hend : d.feed.ended = false)
    (hread : ∀ reason, stop ≠ some (.sourceFailed (.unreadable reason))) :
    ∃ read, c.feed.Advances read d.feed ∧
      ∀ other, (c.withFeed (c.feed.withScript (read ++ other))).run limit agenda =
        (stop, d.withFeed (d.feed.withScript other)) := by
  by_cases hfailed : ∃ e, stop = some (.sourceFailed e)
  · obtain ⟨e, rfl⟩ := hfailed
    obtain ⟨c', rest, feed, hsteps, hdraw, rfl⟩ := exists_starved h
    have hreason : ∀ reason, Except.error e ≠ (.error (.unreadable reason) : Except _ Token) := by
      rintro reason ⟨⟩
      exact hread reason rfl
    obtain ⟨more, hmore, hdraws⟩ := Reader.advances_of_draw hdraw hend hreason
    obtain ⟨read, hadvances, hothers⟩ := hsteps.before_end hmore.before
    refine ⟨read ++ more, hadvances.trans hmore, fun other => ?_⟩
    rw [List.append_assoc]
    exact (run_of_steps (hothers (more ++ other))).trans
      (run_of_halts (.starved (c := c'.withFeed _) (hdraws other)))
  · obtain ⟨c', agenda', hsteps, hhalts⟩ := run_eq_iff.1 h
    obtain ⟨hfeed, hanywhere⟩ := hhalts.anywhere (not_exists.1 hfailed)
    rw [hfeed] at hend ⊢
    obtain ⟨read, hadvances, hothers⟩ := hsteps.before_end hend
    exact ⟨read, hadvances, fun other =>
      (run_of_steps (hothers other)).trans (run_of_halts (hanywhere _))⟩

/-- A run behind the end reads nothing. -/
theorem run_feed_of_ended {stop : Option (Stop SourceFailure)} (h : c.run limit agenda = (stop, d))
    (hended : c.feed.ended = true) : d.feed = c.feed := by
  obtain ⟨c', agenda', hsteps, hhalts⟩ := run_eq_iff.1 h
  have hsame := hsteps.feed_of_ended hended
  cases hhalts with
  | done | mismatch | choice | tooDeep => exact hsame
  | starved hdraw => exact (Reader.eq_of_draw_of_ended (hsame ▸ hended) hdraw).trans hsame

/-- **A run over the end** takes the whole source. -/
theorem run_to_end {stop : Option (Stop SourceFailure)} (h : c.run limit agenda = (stop, d))
    (hfresh : c.feed.ended = false) (hend : d.feed.ended = true) :
    Reading.Exhausts c.feed.script d.feed.script := by
  obtain ⟨c', agenda', hsteps, hhalts⟩ := run_eq_iff.1 h
  cases hhalts with
  | done | mismatch | choice | tooDeep => exact hsteps.to_end hfresh hend
  | starved hdraw =>
      -- a draw that fails does not meet the end
      have hended : c'.feed.draw.2.ended = true := (congrArg (·.2.ended) hdraw).trans hend
      obtain ⟨t, ht, -⟩ := (Reader.ended_draw_iff c'.feed).1 hended
      rw [show c'.feed.draw = _ from hdraw] at ht
      cases ht

/-! ### Where a run halts -/

/-- **The sentinel is still to come, or it is the lookahead.** -/
def Bound (c : Cursor Reader) (agenda : Agenda) : Prop :=
  .part (.terminal .eof) ∈ agenda ∨ c.lookahead.kind = .eof

/-- What is no sentinel may be taken off. -/
theorem Bound.tail {task : Task} (h : c.Bound (task :: agenda))
    (hne : task ≠ .part (.terminal .eof)) : c.Bound agenda :=
  h.imp (List.mem_of_ne_of_mem hne.symm) id

/-- A step keeps the sentinel in sight. -/
theorem Step.bound (h : Step limit c agenda d agenda') (hshows : c.feed.Shows c.lookahead)
    (hbound : c.Bound agenda) : d.Bound agenda' := by
  cases h with
  | close => exact hbound.tail nofun
  | continuation =>
      exact (hbound.tail nofun).imp (List.mem_append_right _) id
  | @accept next feed agenda hdraw =>
      have hfinal : c.lookahead.kind = .eof → next.kind = .eof := by
        intro hlast
        have hended := hshows.ended.2 hlast
        have hsame := Reader.eq_of_draw_of_ended hended hdraw
        exact (Reader.shows_of_draw hdraw).ended.1 (hsame ▸ hended)
      rcases hbound with hmem | hlast
      · rcases List.mem_cons.1 hmem with hhead | hmem
        · cases hkind : c.lookahead.kind with
          | eof => exact .inr (hfinal hkind)
          | _ => rw [hkind] at hhead; cases hhead
        · exact .inl hmem
      · exact .inr (hfinal hlast)
  | opening =>
      refine (hbound.tail nofun).imp (fun hmem => ?_) id
      exact List.mem_append_right _ (List.mem_cons_of_mem _ hmem)

/-- Steps keep the sentinel in sight. -/
theorem Steps.bound (h : Steps limit c agenda d agenda') (hshows : c.feed.Shows c.lookahead)
    (hbound : c.Bound agenda) : d.Bound agenda' := by
  induction h with
  | refl => exact hbound
  | step hstep _ ih => exact ih (hstep.shows hshows) (hstep.bound hshows hbound)

end Cursor

/-- **What a stop tells of the reader it comes from.** A token that is rejected, or met too deep,
shows where the reader stands; malformed text is reported on its line; success is at the end. -/
def Reader.StandsAt (r : Reader) : Option (Stop SourceFailure) → Prop
  | none => r.ended = true
  | some (.syntaxError e) => r.Shows e.found
  | some (.tooDeep e) => r.Shows e.token
  | some (.sourceFailed (.malformed report)) => r.ended = false ∧ report.location.line = r.line
  | some (.sourceFailed (.unreadable _)) => r.ended = false
  | some (.misused _) => False

/-- A draw that fails tells where the reader stands. -/
theorem Reader.standsAt_of_draw {r r' : Reader} {e : SourceFailure} (h : r.draw = (.error e, r')) :
    r'.StandsAt (some (.sourceFailed e)) := by
  have hdrawn := r.drawn
  rw [h] at hdrawn
  dsimp only at hdrawn
  cases hdrawn with
  | unreadable hended => exact hended
  | @malformed _ _ _ _ fault hended =>
      refine ⟨hended, ?_⟩
      cases fault <;> rfl

/-- **A run halts where its stop tells.** -/
theorem Cursor.run_standsAt {limit : Option Nat} {c d : Cursor Reader} {agenda : Agenda}
    {stop : Option (Stop SourceFailure)} (h : c.run limit agenda = (stop, d))
    (hshows : c.feed.Shows c.lookahead) (hbound : c.Bound agenda) : d.feed.StandsAt stop := by
  obtain ⟨c', agenda', hsteps, hhalts⟩ := run_eq_iff.1 h
  have hshows' := hsteps.shows hshows
  cases hhalts with
  | done =>
      rcases hsteps.bound hshows hbound with hmem | hlast
      · cases hmem
      · exact hshows'.ended.2 hlast
  | mismatch | choice | tooDeep => exact hshows'
  | starved hdraw => exact Reader.standsAt_of_draw hdraw

/-! ### Parses -/

/-- What is reported at the end does not touch the source. -/
theorem Cursor.feed_report {σ ε : Type} (d : Cursor σ) (stop : Option (Stop ε)) :
    (d.report stop).feed = d.feed := by
  cases stop <;> rfl

/-- The same analyser with other readings to come. -/
def Analyser.withScript (a : Analyser Reader) (script : List Reading) : Analyser Reader :=
  match a with
  | fresh feed sink => fresh (feed.withScript script) sink
  | started cursor => started (cursor.withFeed (cursor.feed.withScript script))

section

variable {limit : Option Nat} {source : Reader} {start : Rule}

/-- **A parse that ends in front of the end of its source** has taken lines from it, and is the same
whatever comes behind them. -/
theorem recorded_before_end (hend : (recorded limit source start).2.feed.ended = false)
    (hread : ∀ reason,
      (recorded limit source start).1 ≠ some (.sourceFailed (.unreadable reason))) :
    ∃ read, source.Advances read (recorded limit source start).2.feed ∧
      ∀ other, recorded limit (source.withScript (read ++ other)) start =
        ((recorded limit source start).1, (recorded limit source start).2.withScript other) := by
  rcases recorded_cases limit source start with
    ⟨e, rest, hfirst, hparse⟩ | ⟨t, rest, stop, d, hfirst, hrun, hparse⟩
  · rw [hparse] at hend hread ⊢
    have hreason : ∀ reason, Except.error e ≠ (.error (.unreadable reason) : Except _ Token) := by
      rintro reason ⟨⟩
      exact hread reason rfl
    obtain ⟨read, hadvances, hothers⟩ := Reader.advances_of_draw hfirst hend hreason
    exact ⟨read, hadvances, fun other => parse_of_draw_error start (hothers other)⟩
  · rw [hparse] at hend hread ⊢
    rw [Analyser.feed, d.feed_report] at hend ⊢
    obtain ⟨more, hmore, hruns⟩ := Cursor.run_before_end hrun hend hread
    obtain ⟨read, hadvances, hothers⟩ := Reader.advances_of_draw hfirst hmore.before nofun
    refine ⟨read ++ more, hadvances.trans hmore, fun other => ?_⟩
    rw [List.append_assoc]
    refine (parse_of_run (hothers (more ++ other)) (hruns other)).trans ?_
    cases stop <;> rfl

/-- **A parse that ends behind the end of its source** has taken all of it. -/
theorem recorded_to_end (hfresh : source.ended = false)
    (hend : (recorded limit source start).2.feed.ended = true) :
    Reading.Exhausts source.script (recorded limit source start).2.feed.script := by
  rcases recorded_cases limit source start with
    ⟨e, rest, hfirst, hparse⟩ | ⟨t, rest, stop, d, hfirst, hrun, hparse⟩
  · rw [hparse] at hend ⊢
    have hwhole := Reader.exhausts_of_draw hfresh ((congrArg (·.2.ended) hfirst).trans hend)
    rwa [show source.draw = _ from hfirst] at hwhole
  · rw [hparse, Analyser.feed, d.feed_report] at hend ⊢
    have hdraw : source.draw = (.ok t, rest) := hfirst
    cases hended : rest.ended with
    | false =>
        obtain ⟨read, hadvances, -⟩ := Reader.advances_of_draw hdraw hended nofun
        rw [hadvances.script]
        exact (Cursor.run_to_end hrun hended hend).append hadvances.lines
    | true =>
        have hwhole := Reader.exhausts_of_draw hfresh ((congrArg (·.2.ended) hdraw).trans hended)
        rw [Cursor.run_feed_of_ended hrun hended]
        rwa [hdraw] at hwhole

/-- **A parse ends where its stop tells.** -/
theorem recorded_standsAt (limit : Option Nat) (source : Reader) (start : Rule) :
    (recorded limit source start).2.feed.StandsAt (recorded limit source start).1 := by
  rcases recorded_cases limit source start with
    ⟨e, rest, hfirst, hparse⟩ | ⟨t, rest, stop, d, hfirst, hrun, hparse⟩
  · rw [hparse]
    exact Reader.standsAt_of_draw hfirst
  · rw [hparse, Analyser.feed, d.feed_report]
    have hbound : (Cursor.first rest t .recording).Bound
        [.part (.rule start), .part (.terminal .eof)] := .inl (by simp)
    exact Cursor.run_standsAt hrun (Reader.shows_of_draw hfirst) hbound

end

end SccSharp
