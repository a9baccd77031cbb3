import SccSharp.Proofs.Draining
import SccSharp.Proofs.Kinds
import SccSharp.Proofs.Redrawing

/-!
# Legible traces

Traces and error chains are written line by line, so it matters that nothing written holds a line
feed. Labels, names and alternatives are fixed texts, and numerals are made of digits; what remains
is the text of a token, and that is part of a lexeme.

`Token.Readable` says of a token that a reader may have made it. A run keeps the token ahead and the
tokens in its events readable (`Cursor.Legible.of_steps`), and what it rejects is told from one
terminal or one choice on the line of the token rejected (`Event.Legible`). So each line of an event
is one line of text, and each entry of an error chain is one as well.

## Main Definitions

* `Text.OneLine` — texts without line feeds
* `Token.Readable` — tokens as readers make them
* `Event.Legible`, `SyntaxError.Legible` — events and errors as parses over readers make them

## Main Statements

* `legible_of_recorded` — a parse over a reader makes legible events, and a legible error
* `Event.Legible.oneLine` — the lines of an event are lines of text
-/

namespace SccSharp

/-! ### Texts on one line -/

namespace Text

/-- **A text on one line**: it holds no line feed. -/
def OneLine (text : String) : Prop :=
  '\n' ∉ text.toList

instance (text : String) : Decidable (OneLine text) :=
  inferInstanceAs (Decidable ('\n' ∉ text.toList))

theorem OneLine.append {first second : String} (h : OneLine first) (h' : OneLine second) :
    OneLine (first ++ second) := by
  rw [OneLine, String.toList_append, List.mem_append, not_or]
  exact ⟨h, h'⟩

theorem OneLine.join {texts : List String} (h : ∀ text ∈ texts, OneLine text) :
    OneLine (String.join texts) := by
  rw [OneLine, String.toList_join, List.mem_flatMap]
  rintro ⟨text, hmem, hnewline⟩
  exact h text hmem hnewline

/-- A numeral is made of digits and, below zero, a minus sign. -/
theorem isDigit_or_minus_of_mem_numeral {n : Int} {c : Char} (h : c ∈ (toString n).toList) :
    c.isDigit = true ∨ c = '-' := by
  have hdigits : ∀ m : Nat, c ∈ m.repr.toList → c.isDigit = true := by
    intro m hm
    rw [Nat.toList_repr] at hm
    exact Nat.isDigit_of_mem_toDigits (by decide) (by decide) hm
  rw [Int.toString_eq_repr, Int.repr_eq_if] at h
  split at h
  · exact .inl (hdigits _ h)
  · rw [String.toList_append] at h
    rcases List.mem_append.1 h with hminus | hdigit
    · exact .inr (List.mem_singleton.1 hminus)
    · exact .inl (hdigits _ hdigit)

/-- Other characters do not occur in numerals. -/
theorem not_mem_numeral (n : Int) {c : Char} (hdigit : c.isDigit = false) (hminus : c ≠ '-') :
    c ∉ (toString n).toList := by
  intro hmem
  rcases isDigit_or_minus_of_mem_numeral hmem with hc | hc
  · rw [hdigit] at hc
    cases hc
  · exact hminus hc

theorem oneLine_numeral (n : Int) : OneLine (toString n) :=
  not_mem_numeral n (by decide) (by decide)

end Text

open Text (OneLine)

theorem Rule.oneLine_label (r : Rule) : OneLine r.label := by
  cases r <;> decide

theorem Terminal.oneLine_name (t : Terminal) : OneLine t.name := by
  cases t <;> decide

theorem Choice.oneLine_alternatives (c : Choice) : OneLine c.alternatives := by
  cases c <;> decide +kernel

/-! ### Tokens -/

/-- The text of a token is part of what spells it. -/
theorem Spells.text_subset {kind : Terminal} {text : String} {spelling : List Char}
    (h : Spells kind text spelling) : text.toList ⊆ spelling := by
  cases h with
  | keyword | identifier | number | operator => exact List.Subset.refl _
  | string => exact fun c hc => List.mem_cons_of_mem _ (List.mem_append_left _ hc)

/-- **A token as a reader makes it**: the sentinel without a text, or one that a lexeme spells. -/
inductive Token.Readable (t : Token) : Prop where
  | sentinel : t.kind = .eof → t.text = "" → Readable t
  | spelled {spelling : List Char} : Spells t.kind t.text spelling → Readable t

/-- The text of the tokens of a terminal that do not differ in their text. -/
def Terminal.soleText (kind : Terminal) : String :=
  (((keywords ++ operators).find? fun entry => entry.2 == kind).map Prod.fst).getD ""

namespace Token.Readable

variable {t : Token}

theorem oneLine (h : t.Readable) : OneLine t.text := by
  cases h with
  | sentinel _ htext =>
      rw [htext]
      decide
  | spelled hspells => exact fun hmem => hspells.newline_not_mem (hspells.text_subset hmem)

/-- **The kind gives the text away** unless it carries a lexeme. -/
theorem text_eq (h : t.Readable) (hsole : t.kind.carriesLexeme = false) :
    t.text = t.kind.soleText := by
  have hall : ∀ entry ∈ Terminal.keywords ++ Terminal.operators, entry.1 = entry.2.soleText := by
    decide +kernel
  cases h with
  | sentinel hkind htext =>
      rw [hkind, htext]
      rfl
  | spelled hspells =>
      generalize t.kind = kind at hspells hsole
      generalize t.text = text at hspells
      cases hspells with
      | keyword hmem => exact hall _ (List.mem_append_left _ hmem)
      | operator hmem => exact hall _ (List.mem_append_right _ hmem)
      | identifier | number | string => cases hsole

end Token.Readable

/-- **A reader draws readable tokens.** -/
theorem Reader.readable_of_draw {r r' : Reader} {t : Token} (h : Feed.draw r = (.ok t, r')) :
    t.Readable := by
  have hdrawn := r.drawn
  rw [show r.draw = _ from h] at hdrawn
  dsimp only at hdrawn
  cases hdrawn with
  | exhausted | ended => exact .sentinel rfl rfl
  | token _ _ hread =>
      obtain ⟨text, hspells⟩ := Lexeme.exists_spells_of_read hread
      have htext := Lexeme.text_of_spells hspells
      rw [← htext] at hspells
      exact .spelled hspells

/-- The tokens that a reader gives are readable. -/
theorem Feed.Gives.readable {r : Reader} {tokens : List Token}
    {outcome : Except SourceFailure Token} (h : Gives r tokens outcome) :
    (∀ t ∈ tokens, t.Readable) ∧ ∀ t, outcome = .ok t → t.Readable := by
  induction h with
  | sentinel hdraw =>
      refine ⟨List.forall_mem_nil _, ?_⟩
      rintro t ⟨⟩
      exact Reader.readable_of_draw hdraw
  | failure => exact ⟨List.forall_mem_nil _, nofun⟩
  | token hdraw _ _ ih =>
      exact ⟨List.forall_mem_cons.2 ⟨Reader.readable_of_draw hdraw, ih.1⟩, ih.2⟩

/-- The tokens that a reader is drained of are readable. -/
theorem Reader.readable_of_mem_drain {r : Reader} {t : Token} (h : t ∈ (Feed.drain r).1) :
    t.Readable := by
  obtain ⟨tokens, outcome, hgives⟩ := Feed.exists_gives r
  obtain ⟨htokens, hlast⟩ := hgives.readable
  cases outcome with
  | ok last =>
      obtain ⟨rest, hdrain⟩ := hgives.drain_ok
      rw [hdrain, List.mem_toArray] at h
      rcases List.mem_append.1 h with hmem | hmem
      · exact htokens t hmem
      · rw [List.mem_singleton.1 hmem]
        exact hlast last rfl
  | error failure =>
      obtain ⟨rest, hdrain⟩ := hgives.drain_error
      rw [hdrain, List.mem_toArray] at h
      exact htokens t h

/-- What is required is told on one line. -/
theorem Requirement.oneLine_text (required : Requirement) (line : Int) :
    OneLine (required.expectation line).text := by
  have hline := Text.oneLine_numeral line
  cases required with
  | terminal t =>
      exact .append (.append (.append (by decide) t.oneLine_name) (by decide)) hline
  | choice c => exact .append (c.oneLine_alternatives.append (by decide)) hline

/-! ### Events and errors -/

/-- **An event as a parse over a reader makes it**: its token is readable, and a rejection requires
something on the line of the token rejected. -/
inductive Event.Legible : Event → Prop where
  | opened (r : Rule) : Legible (.opened r)
  | closed (r : Rule) : Legible (.closed r)
  | accepted {t : Token} : t.Readable → Legible (.accepted t)
  | succeeded : Legible .succeeded
  | rejected {found : Token} (required : Requirement) : found.Readable →
      Legible (.rejected found (required.expectation found.line))

/-- **An error as a parse over a reader makes it**: raised at a readable token, and seen from the
rules around it. -/
inductive SyntaxError.Legible : SyntaxError → Prop where
  | raised {found : Token} (required : Requirement) (rules : List OpenRule) : found.Readable →
      Legible ((SyntaxError.raised (required.expectation found.line) found).withinAll rules)

/-- Readable tokens are shown on one line. -/
theorem Token.Readable.oneLine_traceText {t : Token} (h : t.Readable) : OneLine t.traceText := by
  have hname := t.kind.oneLine_name
  rw [Token.traceText]
  split
  · exact .append (.append (hname.append (by decide)) h.oneLine) (by decide)
  · exact hname

/-- **The lines of an event are lines of text.** -/
theorem Event.Legible.oneLine {e : Event} (h : e.Legible) : ∀ line ∈ e.lines, OneLine line := by
  cases h with
  | opened r | closed r =>
      exact List.forall_mem_singleton.2 (.append (by decide) r.oneLine_label)
  | accepted hreadable =>
      refine List.forall_mem_singleton.2 (.append (.append ?_ (by decide)) (Text.oneLine_numeral _))
      exact .append (by decide) hreadable.oneLine_traceText
  | succeeded => exact List.forall_mem_singleton.2 (by decide)
  | rejected required hreadable =>
      refine List.forall_mem_cons.2 ⟨by decide, List.forall_mem_singleton.2 ?_⟩
      refine .append (.append (.append ?_ (by decide)) hreadable.oneLine) (by decide)
      exact .append (by decide) (required.oneLine_text _)

/-- And none of them is empty. -/
theorem Event.ne_empty_of_mem_lines {e : Event} {line : String} (h : line ∈ e.lines) :
    line ≠ "" := by
  rintro rfl
  cases e <;> simp [Event.lines] at h

/-- **The entries of an error are lines of text.** -/
theorem SyntaxError.Legible.oneLine {e : SyntaxError} (h : e.Legible) :
    ∀ frame ∈ e.frames, OneLine frame.message := by
  cases h with
  | raised required rules hreadable =>
      refine List.forall_mem_cons.2 ⟨?_, ?_⟩
      · refine .append (.append (.append ?_ (by decide)) hreadable.oneLine) (by decide)
        exact .append (by decide) (required.oneLine_text _)
      · intro frame hmem
        obtain ⟨o, -, rfl⟩ := List.mem_map.1 hmem
        refine .append (.append (.append ?_ (by decide)) (Text.oneLine_numeral _)) (by decide)
        exact .append (by decide) o.rule.oneLine_label

/-! ### Parses over readers -/

/-- An event kept is one that was kept before, or the last one. -/
theorem Sink.mem_events_emit {s : Sink} {e e' : Event} (h : e' ∈ (s.emit e).events) :
    e' ∈ s.events ∨ e' = e := by
  cases s with
  | record events =>
      rw [emit, Sink.events, Array.toList_push] at h
      exact (List.mem_append.1 h).imp_right List.mem_singleton.1
  | write | discard => cases h

namespace Cursor

/-- **A run on the way is legible**: so are the events kept, and the token ahead is readable. -/
structure Legible {σ : Type} (c : Cursor σ) : Prop where
  ahead : c.lookahead.Readable
  kept : ∀ e ∈ c.sink.events, e.Legible

namespace Legible

variable {limit : Option Nat}

/-- One more legible event. -/
theorem emit {σ : Type} {c : Cursor σ} {e : Event} (h : c.Legible) (he : e.Legible) :
    (c.emit e).Legible where
  ahead := h.ahead
  kept := by
    intro e' hmem
    rcases Sink.mem_events_emit hmem with hkept | rfl
    · exact h.kept e' hkept
    · exact he

/-- The token ahead accepted, and another one ahead. -/
theorem after {σ : Type} {c : Cursor σ} {front : Token × σ} (h : c.Legible)
    (tokens : List Token) (hfront : front.1.Readable) :
    (c.after tokens [.accepted c.lookahead] front).Legible where
  ahead := hfront
  kept := (h.emit (.accepted h.ahead)).kept

variable {c d : Cursor Reader} {agenda agenda' : Agenda}

/-- A step keeps a run over a reader legible. -/
theorem of_step (h : c.Legible) (hstep : Step limit c agenda d agenda') : d.Legible := by
  cases hstep with
  | close => exact h.emit (.closed _)
  | continuation => exact h
  | accept hdraw => exact h.after _ (Reader.readable_of_draw hdraw)
  | opening => exact h.emit (.opened _)

/-- **Steps keep a run over a reader legible.** -/
theorem of_steps (h : c.Legible) (hsteps : Steps limit c agenda d agenda') : d.Legible := by
  induction hsteps with
  | refl => exact h
  | step hstep _ ih => exact ih (h.of_step hstep)

/-- **A legible run halts legibly.** -/
theorem of_halts {stop : Option (Stop SourceFailure)} (h : c.Legible)
    (hhalts : Halts limit c agenda stop d) :
    (d.report stop).Legible ∧ ∀ e, stop = some (.syntaxError e) → e.Legible := by
  cases hhalts with
  | done => exact ⟨h.emit .succeeded, fun _ he => by cases he⟩
  | @mismatch t =>
      refine ⟨h.emit (.rejected (.terminal t) h.ahead), ?_⟩
      rintro e ⟨⟩
      exact .raised (.terminal t) _ h.ahead
  | starved => exact ⟨h.after _ h.ahead, fun _ he => by cases he⟩
  | @choice r alternatives =>
      refine ⟨(h.emit (.opened r)).emit (.rejected (.choice alternatives) h.ahead), ?_⟩
      rintro e ⟨⟩
      exact .raised (.choice alternatives) _ h.ahead
  | tooDeep => exact ⟨h, fun _ he => by cases he⟩

end Legible

end Cursor

/-- **A parse over a reader is legible**, in its events and in its error, however it ends. -/
theorem legible_of_recorded (limit : Option Nat) (source : Reader) (start : Rule) :
    (∀ e ∈ (recorded limit source start).2.sink.events, e.Legible) ∧
      ∀ e, (recorded limit source start).1 = some (.syntaxError e) → e.Legible := by
  rcases recorded_cases limit source start with
    ⟨failure, rest, -, hparse⟩ | ⟨t, rest, stop, d, hfirst, hrun, hparse⟩
  · rw [hparse]
    exact ⟨List.forall_mem_nil _, fun _ he => by cases he⟩
  · have hstart : (Cursor.first rest t .recording).Legible :=
      ⟨Reader.readable_of_draw hfirst, List.forall_mem_nil _⟩
    obtain ⟨c, agenda, hsteps, hhalts⟩ := Cursor.run_eq_iff.1 hrun
    obtain ⟨hlegible, herror⟩ := (hstart.of_steps hsteps).of_halts hhalts
    rw [hparse]
    exact ⟨hlegible.kept, herror⟩

end SccSharp
