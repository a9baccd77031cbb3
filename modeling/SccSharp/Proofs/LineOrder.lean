import SccSharp.Check
import SccSharp.Proofs.LinesRead
import SccSharp.Proofs.Room

/-!
# The order of lines

A reader counts lines upwards, so tokens come with lines that never decrease. A rule is opened with
the line of the token ahead, which is the latest by then, and it is closed before all rules that
were opened earlier. So from the innermost open rule outwards, lines never increase, and no token
that has been accepted is on a later line than the one ahead.

That is what `Cursor.InOrder` says of a moment of a run, and a run over any source keeps it whose
draws never go back by a line (`InOrder.exists_of_steps`). A reader over a text is such a source,
and the lines it counts stay within those of the text (`Reader.lineBound`). At a syntax error the
token ahead is the one found, and the open rules are the entries around the error.

## Main Definitions

* `Event.lineNumbers` — the lines that an event tells of
* `SyntaxError.LinesInOrder` — the order of the lines of an error and of the events before it
* `Cursor.InOrder` — the same of a run on the way
* `Reader.lineBound` — how many lines a reader can count

## Main Statements

* `Text.length_lines` — how many lines a text is read in
* `error_lines_in_order` — lines along the chain of an error, and along the trace up to it
-/

namespace SccSharp

/-! ### Lines of a text -/

namespace Text

/-- The lines of a text count behind whole lines. -/
theorem lineCount_append_lines {passed text : List Char} (hpassed : lastLine passed = []) :
    lineCount (passed ++ text) = passed.count '\n' + (lines text).length := by
  induction hlines : lines text generalizing passed text with
  | nil => rw [eq_nil_of_lines hlines, List.append_nil, lineCount, if_pos hpassed, List.length_nil]
  | cons line more ih =>
      obtain ⟨later, rfl, rfl, hline⟩ := lines_eq_cons hlines
      have hcount : lineCount (passed ++ line) = passed.count '\n' + 1 := hline.lineCount_append
      by_cases hlater : later = []
      · rw [hlater, List.append_nil, hcount]
        rfl
      · have hwhole : lastLine (passed ++ line) = [] := hline.lastLine_append hlater
        rw [lineCount, if_pos hwhole, Nat.add_zero] at hcount
        rw [← List.append_assoc, ih hwhole rfl, hcount, List.length_cons]
        omega

/-- **A text is read in as many lines as it has.** -/
theorem length_lines (text : List Char) : (lines text).length = lineCount text := by
  have hcount : lineCount ([] ++ text) = [].count '\n' + (lines text).length :=
    lineCount_append_lines rfl
  rw [List.nil_append, List.count_nil, Nat.zero_add] at hcount
  exact hcount.symm

end Text

/-! ### Lines told -/

/-- The lines that an event tells of. -/
def Event.lineNumbers : Event → List Int
  | accepted t => [t.line]
  | rejected found (.terminal _ line) => [found.line, line]
  | rejected found (.choice _ line) => [found.line, line]
  | rejected found (.stated _) => [found.line]
  | _ => []

/-- **Lines in order**: along the chain of an error, from its origin outwards, they never increase,
along the tokens accepted before it they never decrease, and the token found comes last. All of
them are lines from the first to the last one. -/
structure SyntaxError.LinesInOrder (e : SyntaxError) (events : List Event) (last : Int) :
    Prop where
  origin : e.frames.head?.map Frame.line = some e.found.line
  outwards : (e.frames.map Frame.line).Pairwise fun inner outer => outer ≤ inner
  accepted : ((acceptedTokens events).map Token.line).Pairwise fun earlier later => earlier ≤ later
  found : ∀ t ∈ acceptedTokens events, t.line ≤ e.found.line
  frames : ∀ frame ∈ e.frames, 1 ≤ frame.line ∧ frame.line ≤ last
  events : ∀ event ∈ events, ∀ line ∈ event.lineNumbers, 1 ≤ line ∧ line ≤ last

/-! ### Runs on the way -/

namespace Cursor

variable {σ ε : Type}

/-- **A run with lines in order**: none is later than that of the token ahead. -/
structure InOrder (c : Cursor σ) (agenda : Agenda) (events : List Event) : Prop where
  recorded : c.sink = .record events.toArray
  opened : ((openRules agenda).map OpenRule.line).Pairwise fun inner outer => outer ≤ inner
  accepted : ((acceptedTokens events).map Token.line).Pairwise fun earlier later => earlier ≤ later
  positive : 1 ≤ c.lookahead.line
  openLines : ∀ o ∈ openRules agenda, 1 ≤ o.line ∧ o.line ≤ c.lookahead.line
  eventLines : ∀ e ∈ events, ∀ line ∈ e.lineNumbers, 1 ≤ line ∧ line ≤ c.lookahead.line

namespace InOrder

variable {c d : Cursor σ} {agenda agenda' : Agenda} {events : List Event} {limit : Option Nat}

/-- Tokens are accepted on lines up to that of the token ahead. -/
theorem line_le (h : c.InOrder agenda events) {t : Token} (ht : t ∈ acceptedTokens events) :
    t.line ≤ c.lookahead.line := by
  obtain ⟨e, hmem, he⟩ := List.mem_filterMap.1 ht
  cases e with
  | accepted t' =>
      cases he
      exact (h.eventLines _ hmem _ (List.mem_singleton_self _)).2
  | opened | closed | succeeded | rejected => cases he

/-- One more event, with no line later than that of the token ahead. -/
theorem emit (h : c.InOrder agenda events) (e : Event) (he : e.accepted? = none)
    (hlines : ∀ line ∈ e.lineNumbers, line = c.lookahead.line) :
    (c.emit e).InOrder agenda (events ++ [e]) where
  recorded := by rw [Cursor.emit, h.recorded, Sink.emit_record_toArray]
  opened := h.opened
  accepted := by
    rw [acceptedTokens_concat he]
    exact h.accepted
  positive := h.positive
  openLines := h.openLines
  eventLines := by
    intro e' hmem line hline
    rcases List.mem_append.1 hmem with hmem | hmem
    · exact h.eventLines e' hmem line hline
    · rw [List.mem_singleton.1 hmem] at hline
      rw [hlines line hline]
      exact ⟨h.positive, Int.le_refl _⟩

/-- One more rule open, in front of the token ahead. -/
theorem open_ (h : c.InOrder agenda events) (r : Rule) :
    c.InOrder (.close ⟨r, c.lookahead.line⟩ :: agenda) events :=
  { h with
    opened := by
      rw [openRules_close, List.map_cons]
      refine List.pairwise_cons.2 ⟨?_, h.opened⟩
      intro line hline
      obtain ⟨o, ho, rfl⟩ := List.mem_map.1 hline
      exact (h.openLines o ho).2
    openLines := List.forall_mem_cons.2 ⟨⟨h.positive, Int.le_refl _⟩, h.openLines⟩ }

/-- One rule less is open. -/
theorem tail {o : OpenRule} (h : c.InOrder (.close o :: agenda) events) :
    c.InOrder agenda events :=
  { h with
    opened := (List.pairwise_cons.1 h.opened).2
    openLines := (List.forall_mem_cons.1 h.openLines).2 }

/-- Of what is still to do, only the rules that are open matter. -/
theorem congr (h : c.InOrder agenda events) (hsame : openRules agenda' = openRules agenda) :
    c.InOrder agenda' events :=
  { h with
    opened := hsame ▸ h.opened
    openLines := hsame ▸ h.openLines }

/-- The token ahead is accepted, and the next one is on no earlier line. -/
theorem accept {front : Token × σ} (h : c.InOrder agenda events)
    (hnext : c.lookahead.line ≤ front.1.line) :
    (c.after [c.lookahead] [.accepted c.lookahead] front).InOrder agenda
      (events ++ [.accepted c.lookahead]) where
  recorded := by
    show (c.sink.emit (.accepted c.lookahead)) = _
    rw [h.recorded, Sink.emit_record_toArray]
  opened := h.opened
  accepted := by
    rw [acceptedTokens_append, List.map_append]
    refine List.pairwise_append.2 ⟨h.accepted, List.pairwise_singleton _ _, ?_⟩
    intro line hline later hlater
    obtain ⟨t, ht, rfl⟩ := List.mem_map.1 hline
    rw [List.mem_singleton.1 hlater]
    exact h.line_le ht
  positive := Int.le_trans h.positive hnext
  openLines := fun o ho => ⟨(h.openLines o ho).1, Int.le_trans (h.openLines o ho).2 hnext⟩
  eventLines := by
    intro e hmem line hline
    rcases List.mem_append.1 hmem with hmem | hmem
    · have hbounds := h.eventLines e hmem line hline
      exact ⟨hbounds.1, Int.le_trans hbounds.2 hnext⟩
    · rw [List.mem_singleton.1 hmem] at hline
      rw [List.mem_singleton.1 hline]
      exact ⟨h.positive, hnext⟩

variable [Feed σ ε]

/-- **A step keeps lines in order** if a draw does not go back by a line. -/
theorem exists_of_step (h : c.InOrder agenda events) (hstep : Step limit c agenda d agenda')
    (hdraw : ∀ next feed, Feed.draw c.feed = (.ok next, feed) → c.lookahead.line ≤ next.line) :
    ∃ events', d.InOrder agenda' events' := by
  cases hstep with
  | close => exact ⟨_, h.tail.emit _ rfl nofun⟩
  | continuation =>
      refine ⟨_, h.congr ?_⟩
      rw [openRules_append, openRules_parts]
      rfl
  | accept hnext =>
      have hrest : c.InOrder agenda' events := h.congr rfl
      exact ⟨_, hrest.accept (hdraw _ _ hnext)⟩
  | @opening r body agenda =>
      have hrest : c.InOrder agenda events := h.congr rfl
      refine ⟨_, ((hrest.open_ r).emit (.opened r) rfl nofun).congr ?_⟩
      rw [openRules_append, openRules_parts]
      rfl

end InOrder

end Cursor

/-! ### Runs over a reader -/

namespace Reader

/-- The lines of a source, those that have been read and those that may still be read. -/
def lineBound (r : Reader) : Nat :=
  max (r.place.linesRead + r.script.length) 1

/-- A reader stands on one of its lines. -/
theorem line_le_lineBound (r : Reader) : r.line ≤ r.lineBound := by
  rw [line, lineBound]
  split
  · omega
  · omega

/-- A draw makes no lines. -/
theorem lineBound_draw_le (r : Reader) : r.draw.2.lineBound ≤ r.lineBound := by
  obtain ⟨read, hscript, hlines⟩ := r.exists_read_of_draw
  have hread : read.countP Reading.isLine ≤ read.length := List.countP_le_length
  have hlength := congrArg List.length hscript
  rw [List.length_append] at hlength
  rw [lineBound, lineBound]
  omega

/-- Text that is found where nothing is left of a line has been read. -/
theorem linesRead_pos_of_seek {p p' : Place} {script left : List Reading} {c : Char}
    {rest : List Char} (hrest : p.rest = []) (h : seek p script = (.text c rest, p', left)) :
    0 < p'.linesRead := by
  have hblank : p.skipBlanks.rest = [] := by
    rw [Place.skipBlanks, Place.rest_pass, hrest, List.drop_nil]
  cases script with
  | nil =>
      rw [seek, hblank] at h
      cases h
  | cons reading script =>
      unfold seek at h
      rw [hblank] at h
      dsimp only at h
      split at h
      · cases h
      · cases h
      · next text _ =>
          obtain ⟨read, -, hlines⟩ := exists_read_of_seek (p.startLine text) script
          rw [h, Place.linesRead_startLine] at hlines
          dsimp only at hlines
          omega

/-- The first token is on a line. -/
theorem line_pos_of_first {r r' : Reader} {t : Token} (hrest : r.place.rest = [])
    (h : r.draw = (.ok t, r')) : 0 < r'.line := by
  have hdrawn := r.drawn
  rw [h] at hdrawn
  dsimp only at hdrawn
  cases hdrawn with
  | exhausted hended =>
      rw [line, if_pos hended]
      omega
  | ended =>
      rw [line, if_pos rfl]
      omega
  | token hended hseek =>
      have hpos := linesRead_pos_of_seek hrest hseek
      rw [line, arrive, hended]
      exact hpos

end Reader

namespace Cursor

variable {limit : Option Nat} {c d : Cursor Reader} {agenda agenda' : Agenda} {events : List Event}

/-- Steps make no lines. -/
theorem Steps.lineBound_le (h : Steps limit c agenda d agenda') :
    d.feed.lineBound ≤ c.feed.lineBound := by
  induction h with
  | refl => exact Nat.le_refl _
  | @step c _ _ _ _ _ hstep _ ih =>
      refine Nat.le_trans ih ?_
      cases hstep with
      | close | continuation | opening => exact Nat.le_refl _
      | accept hdraw =>
          have hle := c.feed.lineBound_draw_le
          rw [show c.feed.draw = _ from hdraw] at hle
          exact hle

/-- **Steps over a reader keep lines in order.** -/
theorem InOrder.exists_of_steps (h : c.InOrder agenda events) (hshows : c.feed.Shows c.lookahead)
    (hsteps : Steps limit c agenda d agenda') : ∃ events', d.InOrder agenda' events' := by
  induction hsteps generalizing events with
  | refl => exact ⟨events, h⟩
  | @step c c' _ _ _ _ hstep _ ih =>
      have hnext : ∀ next feed, Feed.draw c.feed = (.ok next, feed) →
          c.lookahead.line ≤ next.line := by
        intro next feed hdraw
        have hle := c.feed.line_le_draw
        rw [show c.feed.draw = _ from hdraw] at hle
        rw [hshows.line, (Reader.shows_of_draw hdraw).line]
        exact Int.ofNat_le.2 hle
      obtain ⟨events', h'⟩ := h.exists_of_step hstep hnext
      exact ih h' (hstep.shows hshows)

/-- The error at the token ahead, seen from the rules that are open, has its lines in order. -/
theorem InOrder.raised {expected : Expectation} {last : Int}
    (h : c.InOrder agenda events) (hlast : c.lookahead.line ≤ last) :
    ((SyntaxError.raised expected c.lookahead).withinAll (openRules agenda)).LinesInOrder
      events last := by
  have hframes : ((SyntaxError.raised expected c.lookahead).withinAll (openRules agenda)).frames =
      SyntaxError.originOf expected c.lookahead :: (openRules agenda).map OpenRule.frame := rfl
  have hlines : (openRules agenda).map (Frame.line ∘ OpenRule.frame) =
      (openRules agenda).map OpenRule.line := rfl
  refine ⟨rfl, ?_, h.accepted, fun t ht => h.line_le ht, ?_, ?_⟩
  · rw [hframes, List.map_cons, List.map_map, hlines]
    refine List.pairwise_cons.2 ⟨?_, h.opened⟩
    intro line hline
    obtain ⟨o, ho, rfl⟩ := List.mem_map.1 hline
    exact (h.openLines o ho).2
  · rw [hframes]
    refine List.forall_mem_cons.2 ⟨⟨h.positive, hlast⟩, ?_⟩
    intro frame hframe
    obtain ⟨o, ho, rfl⟩ := List.mem_map.1 hframe
    exact ⟨(h.openLines o ho).1, Int.le_trans (h.openLines o ho).2 hlast⟩
  · intro event hmem line hline
    have hbounds := h.eventLines event hmem line hline
    exact ⟨hbounds.1, Int.le_trans hbounds.2 hlast⟩

/-- **A syntax error is raised with lines in order.** -/
theorem InOrder.exists_of_halts {e : SyntaxError} {last : Int} (h : c.InOrder agenda events)
    (hhalts : Halts limit c agenda (some (.syntaxError e)) d) (hlast : c.lookahead.line ≤ last) :
    ∃ events', d.sink = .record events'.toArray ∧ e.LinesInOrder events' last := by
  have hsame : ∀ line ∈ [c.lookahead.line, c.lookahead.line], line = c.lookahead.line :=
    List.forall_mem_cons.2 ⟨rfl, List.forall_mem_singleton.2 rfl⟩
  cases hhalts with
  | @mismatch t agenda =>
      have hrest : c.InOrder agenda events := h.congr rfl
      have hrejected := hrest.emit (.rejected c.lookahead (.terminal t c.lookahead.line)) rfl hsame
      exact ⟨_, hrejected.recorded, hrejected.raised hlast⟩
  | @choice r alternatives agenda =>
      have hrest : c.InOrder agenda events := h.congr rfl
      have hopened := (hrest.open_ r).emit (.opened r) rfl nofun
      have hrejected :=
        hopened.emit (.rejected c.lookahead (.choice alternatives c.lookahead.line)) rfl hsame
      exact ⟨_, hrejected.recorded, hrejected.raised hlast⟩

end Cursor

/-! ### Lines along an error chain -/

/-- A check that ends in a syntax error is a parse that does. -/
theorem check_eq_error_iff {stack : CallStack} {source : Reader} {start : Rule} {e : SyntaxError}
    {a : Analyser Reader} : check source start .recording stack = (.ok ⟨some e⟩, a) ↔
      recordedOn stack source start = (some (.syntaxError e), a) := by
  rw [check, Analyser.analyseOn, recordedOn]
  cases (Analyser.fresh source .recording).parseOn stack start with
  | mk stop b =>
      cases stop with
      | none => simp
      | some stop => cases stop <;> simp

/-- Over any source that starts with a new line, an error has its lines in order, and all of them
are lines of the source. -/
theorem linesInOrder_of_recorded {limit : Option Nat} {source : Reader} {start : Rule}
    {e : SyntaxError} {a : Analyser Reader} (hrest : source.place.rest = [])
    (h : recorded limit source start = (some (.syntaxError e), a)) :
    e.LinesInOrder a.sink.events source.lineBound := by
  rcases recorded_cases limit source start with
    ⟨failure, rest, -, hparse⟩ | ⟨t, rest, stop, d, hfirst, hrun, hparse⟩
  · rw [h] at hparse
    cases hparse
  · rw [h] at hparse
    cases hparse
    obtain ⟨c, agenda, hsteps, hhalts⟩ := Cursor.run_eq_iff.1 hrun
    have hshows : rest.Shows t := Reader.shows_of_draw hfirst
    have hpositive : 1 ≤ t.line := by
      rw [hshows.line]
      exact Int.ofNat_le.2 (Reader.line_pos_of_first hrest hfirst)
    have hstart : (Cursor.first rest t .recording).InOrder
        [.part (.rule start), .part (.terminal .eof)] [] :=
      ⟨rfl, .nil, .nil, hpositive, List.forall_mem_nil _, List.forall_mem_nil _⟩
    obtain ⟨events, horder⟩ := hstart.exists_of_steps hshows hsteps
    -- the token ahead is on a line of the source, however many lines have been read
    have hlast : c.lookahead.line ≤ source.lineBound := by
      rw [(hsteps.shows hshows).line]
      refine Int.ofNat_le.2 ?_
      calc
        c.feed.line ≤ c.feed.lineBound := c.feed.line_le_lineBound
        _ ≤ rest.lineBound := hsteps.lineBound_le
        _ ≤ source.lineBound := by
          have hle := source.lineBound_draw_le
          rw [show source.draw = _ from hfirst] at hle
          exact hle
    obtain ⟨events', hrecord, hlines⟩ := horder.exists_of_halts hhalts hlast
    have hevents : (Analyser.started d).sink.events = events' := by
      rw [Analyser.sink, hrecord]
      rfl
    exact hevents ▸ hlines

/-- **Lines along an error chain are in order.** Let the check of a text end in a syntax error,
whatever its call stack has room for. From the origin of the error outwards, the lines of its
entries never increase, and the first of them is that of the token found. The lines of the tokens
accepted never decrease, and none of them is later than that of the token found. Every line in an
entry or an event is one of the lines of the text, where a text without lines counts as one. -/
theorem error_lines_in_order {text file : String} {start : Rule} {e : SyntaxError}
    {stack : CallStack} {a : Analyser Reader}
    (h : check (Reader.ofText text file) start .recording stack = (.ok ⟨some e⟩, a)) :
    e.LinesInOrder a.sink.events (max (Text.lineCount text.toList) 1 : Nat) := by
  have hbound : (Reader.ofText text file).lineBound = max (Text.lineCount text.toList) 1 := by
    show max (0 + (Reading.ofText text.toList).length) 1 = _
    rw [Reading.ofText, List.length_map, Text.length_lines, Nat.zero_add]
  have hparse := check_eq_error_iff.1 h
  have hfits : Fits stack (Reader.ofText text file) start := by
    refine fits_of_ne_tooDeep fun depth => ?_
    rw [hparse]
    exact fun h => nomatch h
  rw [recordedOn_of_fits hfits] at hparse
  rw [← hbound]
  exact linesInOrder_of_recorded rfl hparse

/-- A beginning and, on the next line, a semicolon. -/
def straySemicolon : Reader :=
  .ofText "begin\n;" "<string>"

/-- The semicolon is reached where a statement is asked for. -/
theorem steps_straySemicolon :
    Cursor.Steps nestingLimit
      (.first straySemicolon.draw.2 ⟨.beginWord, "begin", 1⟩ .recording)
      [.part (.rule .statementPart), .part (.terminal .eof)]
      ⟨⟨"<string>", [], ⟨2, 1, []⟩, false⟩, ⟨.semicolon, ";", 2⟩, 1,
        .record #[.opened .statementPart, .accepted ⟨.beginWord, "begin", 1⟩,
          .opened .statementList]⟩
      [.part (.rule .statement), .part (.continuation .statements), .close ⟨.statementList, 2⟩,
        .part (.terminal .endWord), .close ⟨.statementPart, 1⟩, .part (.terminal .eof)] :=
  .step (.opening rfl rfl) (.step (.accept rfl) (.step (.opening rfl rfl) .refl))

/-- Its chain leads back to the line of the beginning. -/
theorem error_lines_in_order_straySemicolon : ∃ e a,
    check straySemicolon .statementPart .recording = (.ok ⟨some e⟩, a) ∧
      e.frames.map Frame.line = [2, 2, 2, 1] ∧ e.LinesInOrder a.sink.events 2 := by
  have hrun := Cursor.run_eq_iff.2 ⟨_, _, steps_straySemicolon, .choice rfl rfl⟩
  have hparse : recorded nestingLimit straySemicolon .statementPart = (_, _) :=
    parse_of_run rfl hrun
  have hcheck := check_eq_error_iff.2 hparse
  exact ⟨_, _, hcheck, rfl, error_lines_in_order hcheck⟩

end SccSharp
