import SccSharp.Proofs.Exchange

/-!
# One sink in place of another

A run never looks at its sink. So whatever the sink does with the events, on one call stack the
steps are the same and so is the end, and the events that go to one sink go to every other
(`Step.withSink`, `EndsOn.withSink`). A parse is therefore known from the one that is recorded: its
end, its count, its lookahead and its source are those of the recorded parse, and its sink has taken
the recorded events (`parseOn_eq_recordedOn`).

What a sink that writes then holds is a text made of lines: those of the events that its style
shows, each behind the marker (`written_emitAll`).

## Main Definitions

* `Cursor.withSink`, `Analyser.withSink` — a cursor and an analyser with another sink
* `TraceStyle.shows`, `TraceStyle.text` — what a style writes of some events

## Main Statements

* `runOn_withSink` — a run with another sink
* `parseOn_eq_recordedOn` — a parse with any sink
* `written_emitAll` — what is written of some events
-/

namespace SccSharp

/-! ### Texts of lines -/

/-- Lines as they are written: each behind the marker and ended by a line feed. -/
def writtenLines (marker : String) (lines : List String) : String :=
  String.join (lines.map fun line => marker ++ line ++ "\n")

/-- Lines that follow each other are written one after the other. -/
theorem writtenLines_append (marker : String) (first second : List String) :
    writtenLines marker (first ++ second) =
      writtenLines marker first ++ writtenLines marker second := by
  rw [writtenLines, List.map_append, String.join_append]
  rfl

namespace TraceStyle

/-- Whether a style shows an event. -/
def shows (style : TraceStyle) (e : Event) : Bool :=
  style.rules || e.isOutcome

/-- **What a style writes of some events**: the lines of those that it shows. -/
def text (style : TraceStyle) (events : List Event) : String :=
  writtenLines style.marker ((events.filter style.shows).flatMap Event.lines)

/-- What is written of an event and those after it. -/
theorem text_cons (style : TraceStyle) (e : Event) (events : List Event) :
    style.text (e :: events) = style.render e ++ style.text events := by
  unfold text render shows
  rw [List.filter_cons]
  split
  · rw [List.flatMap_cons, writtenLines_append]
    rfl
  · rw [String.empty_append]

end TraceStyle

/-- **What is written of some events**, behind what has been written before. -/
theorem Sink.emitAll_write (style : TraceStyle) (written : String) (events : List Event) :
    (Sink.write style written).emitAll events = .write style (written ++ style.text events) := by
  induction events generalizing written with
  | nil =>
      show Sink.write style written = .write style (written ++ "")
      rw [String.append_empty]
  | cons e events ih =>
      show (Sink.write style (written ++ style.render e)).emitAll events = _
      rw [ih, TraceStyle.text_cons, String.append_assoc]

/-- **What a new trace holds after some events.** -/
theorem Sink.written_emitAll (style : TraceStyle) (events : List Event) :
    ((Sink.writing style).emitAll events).written = style.text events := by
  rw [writing, emitAll_write, String.empty_append]
  rfl

/-! ### Runs with another sink -/

namespace Cursor

variable {σ ε : Type}

/-- The same cursor with another sink. -/
def withSink (c : Cursor σ) (sink : Sink) : Cursor σ :=
  { c with sink := sink }

variable [Feed σ ε] {limit : Option Nat} {stack : CallStack} {c d : Cursor σ}
variable {agenda agenda' : Agenda}

/-- **A step is the same with every sink**, and so are its events. -/
theorem Step.withSink (h : Step limit c agenda d agenda') :
    ∃ events, d.sink = c.sink.emitAll events ∧
      ∀ sink, Step limit (c.withSink sink) agenda (d.withSink (sink.emitAll events)) agenda' := by
  cases h with
  | close => exact ⟨[.closed _], rfl, fun _ => .close⟩
  | continuation => exact ⟨[], rfl, fun _ => .continuation⟩
  | accept hdraw => exact ⟨[.accepted _], rfl, fun _ => .accept hdraw⟩
  | opening hopen hbody => exact ⟨[.opened _], rfl, fun _ => .opening hopen hbody⟩

/-- **A halt is the same with every sink**, and so are its events. -/
theorem Halts.withSink {stop : Option (Stop ε)} (h : Halts limit c agenda stop d) :
    ∃ events, d.sink = c.sink.emitAll events ∧
      ∀ sink, Halts limit (c.withSink sink) agenda stop (d.withSink (sink.emitAll events)) := by
  cases h with
  | done => exact ⟨[], rfl, fun _ => .done⟩
  | mismatch hne => exact ⟨[.rejected _ _], rfl, fun _ => .mismatch hne⟩
  | starved hdraw => exact ⟨[.accepted _], rfl, fun _ => .starved hdraw⟩
  | choice hopen hbody => exact ⟨[.opened _, .rejected _ _], rfl, fun _ => .choice hopen hbody⟩
  | tooDeep hclosed => exact ⟨[], rfl, fun _ => .tooDeep hclosed⟩

omit [Feed σ ε] in
/-- A rejection is not told of in full to any sink. -/
theorem Unreported.withSink {count : Nat} {expected : Expectation}
    (h : Unreported stack count c expected d) :
    ∃ events, d.sink = c.sink.emitAll events ∧
      ∀ sink, Unreported stack count (c.withSink sink) expected
        (d.withSink (sink.emitAll events)) := by
  cases h with
  | event hfull => exact ⟨[], rfl, fun _ => .event hfull⟩
  | frames hevent hfull => exact ⟨[.rejected _ _], rfl, fun _ => .frames hevent hfull⟩

/-- **An overflow is the same with every sink**, and so are its events. -/
theorem Overflows.withSink (h : Overflows stack c agenda d) :
    ∃ events, d.sink = c.sink.emitAll events ∧
      ∀ sink, Overflows stack (c.withSink sink) agenda (d.withSink (sink.emitAll events)) := by
  cases h with
  | closing hfull => exact ⟨[], rfl, fun _ => .closing hfull⟩
  | opening hfull => exact ⟨[], rfl, fun _ => .opening hfull⟩
  | accepting hfull => exact ⟨[], rfl, fun _ => .accepting hfull⟩
  | drawing haccept hdraw hfull =>
      exact ⟨[.accepted _], rfl, fun _ => .drawing haccept hdraw hfull⟩
  | mismatch hne hreport =>
      obtain ⟨events, hsink, hreports⟩ := hreport.withSink
      exact ⟨events, hsink, fun sink => .mismatch hne (hreports sink)⟩
  | @choice _ r _ _ hopen hbody hreport =>
      obtain ⟨events, hsink, hreports⟩ := hreport.withSink
      exact ⟨.opened r :: events, hsink, fun sink =>
        .choice hopen hbody (hreports (sink.emit (.opened r)))⟩

/-- Room is the same with every sink. -/
theorem HasRoom.withSink (h : HasRoom stack c agenda) (sink : Sink) :
    HasRoom stack (c.withSink sink) agenda := by
  intro d hover
  obtain ⟨events, -, hovers⟩ := hover.withSink
  exact h _ (hovers c.sink)

/-- **Steps with room are the same with every sink**, and so are their events. -/
theorem StepsOn.withSink (h : StepsOn stack c agenda d agenda') :
    ∃ events, d.sink = c.sink.emitAll events ∧
      ∀ sink,
        StepsOn stack (c.withSink sink) agenda (d.withSink (sink.emitAll events)) agenda' := by
  induction h with
  | refl => exact ⟨[], rfl, fun _ => .refl⟩
  | step hroom hstep _ ih =>
      obtain ⟨first, hfirst, hstep⟩ := hstep.withSink
      obtain ⟨later, hlater, hsteps⟩ := ih
      refine ⟨first ++ later, ?_, fun sink => .step (hroom.withSink sink) (hstep sink) ?_⟩
      · rw [hlater, hfirst, Sink.emitAll_append]
      · rw [Sink.emitAll_append]
        exact hsteps _

/-- **The end of a run is the same with every sink**, and so are its events. -/
theorem EndsOn.withSink {stop : Option (Stop ε)} (h : EndsOn stack c agenda stop d) :
    ∃ events, d.sink = c.sink.emitAll events ∧
      ∀ sink, EndsOn stack (c.withSink sink) agenda stop (d.withSink (sink.emitAll events)) := by
  cases h with
  | halts hroom hhalts =>
      obtain ⟨events, hsink, hothers⟩ := hhalts.withSink
      exact ⟨events, hsink, fun sink => .halts (hroom.withSink sink) (hothers sink)⟩
  | overflows hover =>
      obtain ⟨events, hsink, hothers⟩ := hover.withSink
      exact ⟨events, hsink, fun sink => .overflows (hothers sink)⟩

/-- **A run is the same with every sink**, and so are its events. -/
theorem runOn_withSink {stop : Option (Stop ε)} (h : c.runOn stack agenda = (stop, d)) :
    ∃ events, d.sink = c.sink.emitAll events ∧
      ∀ sink, (c.withSink sink).runOn stack agenda =
        (stop, d.withSink (sink.emitAll events)) := by
  obtain ⟨c', agenda', hsteps, hends⟩ := runOn_eq_iff.1 h
  obtain ⟨first, hfirst, hsteps⟩ := hsteps.withSink
  obtain ⟨later, hlater, hends⟩ := hends.withSink
  refine ⟨first ++ later, ?_, fun sink => runOn_eq_iff.2 ⟨_, _, hsteps sink, ?_⟩⟩
  · rw [hlater, hfirst, Sink.emitAll_append]
  · rw [Sink.emitAll_append]
    exact hends _

omit [Feed σ ε] in
/-- What is reported at the end goes to every sink. -/
theorem report_withSink (d : Cursor σ) (stop : Option (Stop ε)) :
    ∃ events, (d.report stop).sink = d.sink.emitAll events ∧
      ∀ sink, (d.withSink sink).report stop = (d.report stop).withSink (sink.emitAll events) := by
  cases stop with
  | none => exact ⟨[.succeeded], rfl, fun _ => rfl⟩
  | some stop => exact ⟨[], rfl, fun _ => rfl⟩

end Cursor

/-! ### Parses with another sink -/

/-- The same analyser with another sink. -/
def Analyser.withSink {σ : Type} (a : Analyser σ) (sink : Sink) : Analyser σ :=
  match a with
  | fresh feed _ => fresh feed sink
  | started cursor => started (cursor.withSink sink)

namespace Analyser

variable {σ : Type} (a : Analyser σ) (sink : Sink)

@[simp] theorem sink_withSink : (a.withSink sink).sink = sink := by
  cases a <;> rfl

@[simp] theorem feed_withSink : (a.withSink sink).feed = a.feed := by
  cases a <;> rfl

@[simp] theorem consumed_withSink : (a.withSink sink).consumed = a.consumed := by
  cases a <;> rfl

@[simp] theorem lookahead?_withSink : (a.withSink sink).lookahead? = a.lookahead? := by
  cases a <;> rfl

end Analyser

section

variable {σ ε : Type} [Feed σ ε]

/-- **A parse with any sink is the recorded one**, but that the events have gone to the sink. -/
theorem parseOn_eq_recordedOn (stack : CallStack) (source : σ) (sink : Sink) (start : Rule) :
    (Analyser.fresh source sink).parseOn stack start =
      ((recordedOn stack source start).1, (recordedOn stack source start).2.withSink
        (sink.emitAll (recordedOn stack source start).2.sink.events)) := by
  rcases recordedOn_cases stack source start with
    ⟨e, rest, hfirst, hparse⟩ | ⟨t, rest, stop, d, hfirst, hrun, hparse⟩
  · rw [hparse, parseOn_of_draw_error start hfirst]
    rfl
  · obtain ⟨first, hsink, hothers⟩ := Cursor.runOn_withSink hrun
    obtain ⟨later, hreport, hreports⟩ := d.report_withSink stop
    have hevents : (d.report stop).sink.events = first ++ later := by
      rw [hreport, hsink, ← Sink.emitAll_append]
      exact Sink.events_emitAll_recording _
    rw [hparse, parseOn_of_run hfirst (hothers sink), hreports]
    show _ = (stop, Analyser.started ((d.report stop).withSink
      (sink.emitAll (d.report stop).sink.events)))
    rw [hevents, Sink.emitAll_append]

end

end SccSharp
