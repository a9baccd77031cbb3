import Mathlib.Data.List.Forall2
import SccSharp.Proofs.Legibility
import SccSharp.Proofs.Presentation

/-!
# Traces can be decoded

Nothing in a trace is escaped, and the text of a string may hold quotes, commas or whole lines of a
trace. Still the lines of a trace tell its events. The first line of an event starts with a letter
of its own for each kind of event. Where a token is accepted, the line number comes after the last
space and the symbol up to the first one; the text is what lies between them. Where a token is
rejected, what is required comes first, then the line number up to a comma, and the text is what
follows. So each part is found from an end that no text stands in front of.

Only the kind of a token rejected is not told (`TracesAlike`), since its text does not give it away:
a word may stand in quotes.

## Main Definitions

* `Event.SameButKind` — events that differ at most in the kind of the token rejected
* `TracesAlike` — traces that differ at most in this

## Main Statements

* `Event.sameButKind_of_lines` — no two other events have lines that go on the same
* `trace_uniquely_decodable` — the lines of a trace, or its text, tell the trace
-/

namespace SccSharp

open Text (OneLine)

/-! ### Texts in front of a mark -/

namespace Text

variable {c : Char} {front front' back back' : List Char}

/-- What comes in front of the first mark is the same, and so is what comes behind it. -/
theorem eq_of_first_mark (hfront : c ∉ front) (hfront' : c ∉ front')
    (h : front ++ c :: back = front' ++ c :: back') : front = front' ∧ back = back' := by
  induction front generalizing front' with
  | nil =>
      cases front' with
      | nil => exact ⟨rfl, (List.cons.inj h).2⟩
      | cons d front' => exact absurd (List.cons.inj h).1 (List.ne_of_not_mem_cons hfront')
  | cons d front ih =>
      cases front' with
      | nil => exact absurd (List.cons.inj h).1.symm (List.ne_of_not_mem_cons hfront)
      | cons d' front' =>
          obtain ⟨rfl, htail⟩ := List.cons.inj h
          obtain ⟨rfl, hback⟩ := ih (List.not_mem_of_not_mem_cons hfront)
            (List.not_mem_of_not_mem_cons hfront') htail
          exact ⟨rfl, hback⟩

/-- What comes behind the last mark is the same, and so is what comes in front of it. -/
theorem eq_of_last_mark (hback : c ∉ back) (hback' : c ∉ back')
    (h : front ++ c :: back = front' ++ c :: back') : front = front' ∧ back = back' := by
  have hreverse := congrArg List.reverse h
  simp only [List.reverse_append, List.reverse_cons, List.append_assoc,
    List.singleton_append] at hreverse
  obtain ⟨hlast, hfirst⟩ := eq_of_first_mark (by simpa using hback) (by simpa using hback') hreverse
  exact ⟨List.reverse_injective hfirst, List.reverse_injective hlast⟩

/-- Digits tell their number. -/
theorem eq_of_digits {m n : Nat} (h : m.repr.toList = n.repr.toList) : m = n := by
  rw [Nat.toList_repr, Nat.toList_repr] at h
  have hnumber := congrArg (Nat.ofDigitChars 10 · 0) h
  simp only [Nat.ofDigitChars_toDigits (by decide : 1 < 10) (by decide : 10 ≤ 10)] at hnumber
  exact hnumber

/-- A numeral tells its number. -/
theorem eq_of_numeral {m n : Int} (h : (toString m).toList = (toString n).toList) : m = n := by
  have hminus (k : Nat) (digits : List Char) : k.repr.toList ≠ '-' :: digits := by
    intro heq
    have hmem : '-' ∈ Nat.toDigits 10 k := by
      rw [← Nat.toList_repr, heq]
      exact List.mem_cons_self
    exact absurd (Nat.isDigit_of_mem_toDigits (by decide) (by decide) hmem) (by decide)
  have hnegative (k : Nat) : (toString (Int.negSucc k)).toList = '-' :: k.succ.repr.toList :=
    String.toList_append
  cases m with
  | ofNat m =>
      cases n with
      | ofNat n => exact congrArg Int.ofNat (eq_of_digits h)
      | negSucc n => exact absurd (h.trans (hnegative n)) (hminus m _)
  | negSucc m =>
      rw [hnegative] at h
      cases n with
      | ofNat n => exact absurd h.symm (hminus n _)
      | negSucc n =>
          rw [hnegative] at h
          rw [Nat.succ.inj (eq_of_digits (List.cons.inj h).2)]

/-- Lines with line feeds between them, cut at the line feeds, are the lines. -/
theorem splitOn_intercalate {lines : List String} (hlines : ∀ line ∈ lines, OneLine line)
    (hne : lines ≠ []) :
    ("\n".intercalate lines).toList.splitOn '\n' = lines.map String.toList := by
  have hnone : ∀ chars ∈ lines.map String.toList, '\n' ∉ chars := by
    intro chars hmem
    obtain ⟨line, hline, rfl⟩ := List.mem_map.1 hmem
    exact hlines line hline
  rw [String.toList_intercalate]
  exact List.splitOn_intercalate '\n' hnone (mt List.map_eq_nil_iff.1 hne)

/-- Of lines that are not empty, only none at all make an empty text. -/
theorem eq_nil_of_intercalate {lines : List String} (hlines : ∀ line ∈ lines, line ≠ "")
    (h : "\n".intercalate lines = "") : lines = [] := by
  cases lines with
  | nil => rfl
  | cons line more =>
      have hline := hlines line List.mem_cons_self
      cases more with
      | nil =>
          rw [String.intercalate_singleton] at h
          exact absurd h hline
      | cons next more =>
          rw [String.intercalate_cons_cons] at h
          simp [hline] at h

/-- **Lines with line feeds between them** tell the lines, if none of them is empty. -/
theorem eq_of_intercalate {lines lines' : List String}
    (hlines : ∀ line ∈ lines, OneLine line ∧ line ≠ "")
    (hlines' : ∀ line ∈ lines', OneLine line ∧ line ≠ "")
    (h : "\n".intercalate lines = "\n".intercalate lines') : lines = lines' := by
  by_cases hnil : lines = []
  · rw [hnil] at h ⊢
    exact (eq_nil_of_intercalate (fun line hline => (hlines' line hline).2) h.symm).symm
  by_cases hnil' : lines' = []
  · rw [hnil'] at h ⊢
    exact eq_nil_of_intercalate (fun line hline => (hlines line hline).2) h
  have hchars : lines.map String.toList = lines'.map String.toList := by
    rw [← splitOn_intercalate (fun line hline => (hlines line hline).1) hnil, h,
      splitOn_intercalate (fun line hline => (hlines' line hline).1) hnil']
  exact List.map_injective_iff.2 (fun _ _ => String.toList_inj.1) hchars

end Text

/-! ### Tokens accepted -/

/-- No name holds a space. -/
theorem Terminal.space_not_mem_name (t : Terminal) : ' ' ∉ t.name.toList := by
  cases t <;> decide

/-- A token in a trace: the name of its kind, and its text in quotes behind a space if the kind
carries a lexeme. -/
theorem Token.traceText_cases (t : Token) :
    (t.kind.carriesLexeme = true ∧
      t.traceText.toList = t.kind.name.toList ++ ' ' :: ("'" ++ t.text ++ "'").toList) ∨
    (t.kind.carriesLexeme = false ∧ t.traceText = t.kind.name) := by
  rw [traceText]
  split
  · next hcarries =>
      refine .inl ⟨hcarries, ?_⟩
      simp only [String.toList_append, List.append_assoc]
      rfl
  · next hcarries => exact .inr ⟨Bool.eq_false_iff.2 hcarries, rfl⟩

/-- **A token in a trace tells its kind and its text.** -/
theorem Token.Readable.eq_of_traceText {t t' : Token} (h : t.Readable) (h' : t'.Readable)
    (htext : t.traceText = t'.traceText) : t.kind = t'.kind ∧ t.text = t'.text := by
  have hspace := t.kind.space_not_mem_name
  have hspace' := t'.kind.space_not_mem_name
  rcases t.traceText_cases with ⟨-, hshown⟩ | ⟨hsole, hshown⟩ <;>
    rcases t'.traceText_cases with ⟨-, hshown'⟩ | ⟨hsole', hshown'⟩
  · rw [htext, hshown'] at hshown
    obtain ⟨hname, hquoted⟩ := Text.eq_of_first_mark hspace' hspace hshown
    have hquoted := String.append_left_inj _ |>.1 (String.toList_inj.1 hquoted)
    exact ⟨Terminal.name_injective (String.toList_inj.1 hname.symm),
      (String.append_right_inj _ |>.1 hquoted).symm⟩
  · rw [htext, hshown'] at hshown
    rw [hshown] at hspace'
    exact absurd (List.mem_append_right _ List.mem_cons_self) hspace'
  · rw [← htext, hshown] at hshown'
    rw [hshown'] at hspace
    exact absurd (List.mem_append_right _ List.mem_cons_self) hspace
  · have hkind := Terminal.name_injective ((hshown.symm.trans htext).trans hshown')
    refine ⟨hkind, ?_⟩
    rw [h.text_eq hsole, h'.text_eq hsole', hkind]

/-- **The line of a token accepted tells the token.** -/
theorem Token.Readable.eq_of_accepted {t t' : Token} (h : t.Readable) (h' : t'.Readable)
    (hlines : (Event.accepted t).lines = (Event.accepted t').lines) : t = t' := by
  -- the number stands behind the last space
  have hshape : ∀ t : Token, ("TOKEN " ++ t.traceText ++ " on line " ++ toString t.line).toList =
      ("TOKEN " ++ t.traceText ++ " on line").toList ++ ' ' :: (toString t.line).toList := by
    intro t
    simp only [String.toList_append, List.append_assoc]
    rfl
  have hchars := congrArg String.toList (List.cons.inj hlines).1
  rw [hshape, hshape] at hchars
  obtain ⟨hfront, hnumeral⟩ := Text.eq_of_last_mark (Text.not_mem_numeral _ (by decide) (by decide))
    (Text.not_mem_numeral _ (by decide) (by decide)) hchars
  have hfront := String.append_left_inj _ |>.1 (String.toList_inj.1 hfront)
  obtain ⟨hkind, htext⟩ := h.eq_of_traceText h' (String.append_right_inj _ |>.1 hfront)
  have hline := Text.eq_of_numeral hnumeral
  cases t
  cases t'
  cases hkind
  cases htext
  cases hline
  rfl

/-! ### Tokens rejected -/

deriving instance DecidableEq for Requirement

namespace Requirement

/-- Everything that can be required. -/
def all : List Requirement :=
  Terminal.all.map terminal ++ [Choice.statement, .expressionRemainder, .factor,
    .conditionRemainder, .conditionalOperator].map choice

theorem mem_all (required : Requirement) : required ∈ all := by
  cases required with
  | terminal t => exact List.mem_append_left _ (List.mem_map_of_mem t.mem_all)
  | choice c => cases c <;> decide

/-- What an expectation says in front of the line. -/
def start : Requirement → List Char
  | terminal t => "'".toList ++ t.name.toList ++ "' at line ".toList
  | choice c => c.alternatives.toList ++ " at line ".toList

theorem toList_text (required : Requirement) (line : Int) :
    (required.expectation line).text.toList = required.start ++ (toString line).toList := by
  cases required <;> simp only [expectation, Expectation.text, start, String.toList_append]

/-- **What is required is told by the start of an expectation**: none goes on to another one. -/
theorem eq_of_isPrefix {required required' : Requirement}
    (h : required.start <+: required'.start) : required = required' := by
  have hstarts : ∀ required ∈ all, ∀ required' ∈ all,
      required.start <+: required'.start → required = required' := by decide +kernel
  exact hstarts _ required.mem_all _ required'.mem_all h

end Requirement

/-- **The lines of a rejection tell what is required, the line and the text**, but not the kind of
the token. -/
theorem Requirement.eq_of_rejected {required required' : Requirement} {found found' : Token}
    (hlines : (Event.rejected found (required.expectation found.line)).lines =
      (Event.rejected found' (required'.expectation found'.line)).lines) :
    required = required' ∧ found.line = found'.line ∧ found.text = found'.text := by
  -- the number stands between what is required and the first comma behind that
  have hshape : ∀ (required : Requirement) (found : Token),
      ("EXPECTED " ++ (required.expectation found.line).text ++ ", found: '" ++ found.text ++
        "'").toList = "EXPECTED ".toList ++ (required.start ++
          ((toString found.line).toList ++ ',' :: (" found: '" ++ found.text ++ "'").toList)) := by
    intro required found
    simp only [String.toList_append, toList_text, List.append_assoc]
    rfl
  have hchars := congrArg String.toList (List.cons.inj (List.cons.inj hlines).2).1
  rw [hshape, hshape] at hchars
  have hchars := List.append_cancel_left hchars
  have hrequired : required = required' := by
    rcases List.prefix_or_prefix_of_prefix (List.prefix_append _ _)
      (hchars ▸ List.prefix_append _ _) with hprefix | hprefix
    · exact (eq_of_isPrefix hprefix).symm
    · exact eq_of_isPrefix hprefix
  rw [hrequired] at hchars
  obtain ⟨hnumeral, hrest⟩ := Text.eq_of_first_mark
    (Text.not_mem_numeral _ (by decide) (by decide))
    (Text.not_mem_numeral _ (by decide) (by decide)) (List.append_cancel_left hchars)
  have hquoted := String.append_left_inj _ |>.1 (String.toList_inj.1 hrest)
  exact ⟨hrequired, Text.eq_of_numeral hnumeral, String.append_right_inj _ |>.1 hquoted⟩

/-! ### Events -/

namespace Event

/-- The letter that the lines of an event start with. -/
def initial : Event → Char
  | opened _ => 'B'
  | closed _ => 'E'
  | accepted _ => 'T'
  | succeeded => 'S'
  | rejected .. => 'C'

theorem exists_first_line (e : Event) :
    ∃ line more, e.lines = line :: more ∧ line.toList.head? = some e.initial := by
  cases e with
  | opened r | closed r =>
      refine ⟨_, _, rfl, ?_⟩
      rw [String.toList_append]
      rfl
  | accepted t =>
      refine ⟨_, _, rfl, ?_⟩
      simp only [String.toList_append, List.append_assoc]
      rfl
  | succeeded | rejected => exact ⟨_, _, rfl, rfl⟩

/-- **Events that differ at most in the kind of the token rejected.** -/
inductive SameButKind : Event → Event → Prop where
  | same (e : Event) : SameButKind e e
  | rejected {found found' : Token} (expected : Expectation) : found.text = found'.text →
      found.line = found'.line → SameButKind (.rejected found expected) (.rejected found' expected)

/-- **The lines of an event tell the event**, whatever lines follow, but for the kind of a token
rejected. -/
theorem sameButKind_of_lines {e e' : Event} {rest rest' : List String} (h : e.Legible)
    (h' : e'.Legible) (hlines : e.lines ++ rest = e'.lines ++ rest') :
    e.SameButKind e' ∧ rest = rest' := by
  have hinitial : e.initial = e'.initial := by
    obtain ⟨line, more, hfirst, hline⟩ := e.exists_first_line
    obtain ⟨line', more', hfirst', hline'⟩ := e'.exists_first_line
    rw [hfirst, hfirst'] at hlines
    have hsame : line = line' := (List.cons.inj hlines).1
    rw [hsame, hline'] at hline
    exact (Option.some.inj hline).symm
  -- so both are events of one kind, and these have as many lines
  cases h with
  | opened r =>
      cases h' with
      | opened r' =>
          obtain ⟨hline, hrest⟩ := List.cons.inj hlines
          have hrule := Rule.label_injective (String.append_right_inj _ |>.1 hline)
          exact ⟨hrule ▸ .same _, hrest⟩
      | closed | accepted | succeeded | rejected => simp [initial] at hinitial
  | closed r =>
      cases h' with
      | closed r' =>
          obtain ⟨hline, hrest⟩ := List.cons.inj hlines
          have hrule := Rule.label_injective (String.append_right_inj _ |>.1 hline)
          exact ⟨hrule ▸ .same _, hrest⟩
      | opened | accepted | succeeded | rejected => simp [initial] at hinitial
  | accepted hreadable =>
      cases h' with
      | accepted hreadable' =>
          obtain ⟨hline, hrest⟩ := List.append_inj hlines rfl
          exact ⟨hreadable.eq_of_accepted hreadable' hline ▸ .same _, hrest⟩
      | opened | closed | succeeded | rejected => simp [initial] at hinitial
  | succeeded =>
      cases h' with
      | succeeded => exact ⟨.same _, (List.cons.inj hlines).2⟩
      | opened | closed | accepted | rejected => simp [initial] at hinitial
  | rejected required =>
      cases h' with
      | rejected required' =>
          obtain ⟨hline, hrest⟩ := List.append_inj hlines rfl
          obtain ⟨rfl, hnumber, htext⟩ := Requirement.eq_of_rejected hline
          rw [hnumber]
          exact ⟨.rejected _ htext hnumber, hrest⟩
      | opened | closed | accepted | succeeded => simp [initial] at hinitial

end Event

/-! ### Traces -/

/-- **Traces that differ at most in the kind of the token rejected**, and the rejection is their
last event. -/
inductive TracesAlike : List Event → List Event → Prop where
  | same (events : List Event) : TracesAlike events events
  | rejected (events : List Event) {found found' : Token} (expected : Expectation) :
      found.text = found'.text → found.line = found'.line →
        TracesAlike (events ++ [.rejected found expected]) (events ++ [.rejected found' expected])

theorem TracesAlike.cons {events events' : List Event} (e : Event)
    (h : TracesAlike events events') : TracesAlike (e :: events) (e :: events') := by
  cases h with
  | same => exact .same _
  | rejected events expected htext hline => exact .rejected (e :: events) expected htext hline

/-- The lines of events tell them one by one. -/
theorem forall₂_of_lines {events events' : List Event} (h : ∀ e ∈ events, e.Legible)
    (h' : ∀ e ∈ events', e.Legible)
    (hlines : events.flatMap Event.lines = events'.flatMap Event.lines) :
    List.Forall₂ Event.SameButKind events events' := by
  induction events generalizing events' with
  | nil =>
      cases events' with
      | nil => exact .nil
      | cons e' events' =>
          obtain ⟨line, more, hfirst, -⟩ := e'.exists_first_line
          rw [List.flatMap_cons, hfirst] at hlines
          cases hlines
  | cons e events ih =>
      cases events' with
      | nil =>
          obtain ⟨line, more, hfirst, -⟩ := e.exists_first_line
          rw [List.flatMap_cons, hfirst] at hlines
          cases hlines
      | cons e' events' =>
          rw [List.flatMap_cons, List.flatMap_cons] at hlines
          obtain ⟨hevent, hevents⟩ := List.forall_mem_cons.1 h
          obtain ⟨hevent', hevents'⟩ := List.forall_mem_cons.1 h'
          obtain ⟨hsame, hrest⟩ := Event.sameButKind_of_lines hevent hevent' hlines
          exact .cons hsame (ih hevents hevents' hrest)

/-- Where only the last event tells of an outcome, only the last one can differ. -/
theorem tracesAlike_of_forall₂ {events events' : List Event}
    (h : List.Forall₂ Event.SameButKind events events')
    (hundecided : ∀ e ∈ events.dropLast, e.isOutcome = false) : TracesAlike events events' := by
  induction h with
  | nil => exact .same []
  | @cons e e' events events' hevent hevents ih =>
      cases hevents with
      | nil =>
          cases hevent with
          | same => exact .same _
          | rejected expected htext hline => exact .rejected [] expected htext hline
      | @cons next next' =>
          rw [List.dropLast_cons_cons] at hundecided
          obtain ⟨hfirst, hrest⟩ := List.forall_mem_cons.1 hundecided
          cases hevent with
          | same => exact (ih hrest).cons e
          | rejected => cases hfirst

/-- **The trace of a parse** over a reader. -/
def Reader.traced (source : Reader) (limit : Option Nat) (start : Rule) : Sink :=
  (recorded limit source start).2.sink

section

variable {limit limit' : Option Nat} {source source' : Reader} {start start' : Rule}

/-- The lines of a trace are lines of text, and none is empty. -/
theorem Reader.oneLine_of_mem_traced :
    ∀ line ∈ (source.traced limit start).lines, OneLine line ∧ line ≠ "" := by
  intro line hline
  obtain ⟨e, hmem, hline⟩ := List.mem_flatMap.1 hline
  have hlegible := (legible_of_recorded limit source start).1 e hmem
  exact ⟨hlegible.oneLine line hline, Event.ne_empty_of_mem_lines hline⟩

/-- **The lines of a trace tell the trace.** -/
theorem tracesAlike_of_lines
    (h : (source.traced limit start).lines = (source'.traced limit' start').lines) :
    TracesAlike (source.traced limit start).events (source'.traced limit' start').events := by
  obtain ⟨hlegible, -⟩ := legible_of_recorded limit source start
  obtain ⟨hlegible', -⟩ := legible_of_recorded limit' source' start'
  obtain ⟨houtcome, -⟩ := recordedOn_outcome (.limited limit) source start
  exact tracesAlike_of_forall₂ (forall₂_of_lines hlegible hlegible' h) houtcome.undecided

end

/-! ### Error chains -/

namespace SyntaxError

variable {e : SyntaxError} {indent : String}

/-- The line at some depth: as many indents, and the entry that far from the outside. -/
theorem getElem?_trail {depth : Nat} {frame : Frame} (h : e.frames.reverse[depth]? = some frame) :
    (e.trail indent)[depth]? =
      some (String.join (List.replicate depth indent) ++ frame.message) := by
  rw [trail, List.getElem?_mapIdx, h]
  rfl

/-- **A chain is written on lines of text**, if the indent holds no line feed. -/
theorem Legible.oneLine_trail (h : e.Legible) (hindent : OneLine indent) :
    ∀ line ∈ e.trail indent, OneLine line := by
  intro line hline
  obtain ⟨depth, hdepth, rfl⟩ := List.mem_mapIdx.1 hline
  have hframe := h.oneLine _ (List.mem_reverse.1 (List.getElem_mem hdepth))
  have hindents : ∀ text ∈ List.replicate depth indent, OneLine text := by
    intro text htext
    rw [List.eq_of_mem_replicate htext]
    exact hindent
  exact (Text.OneLine.join hindents).append hframe

end SyntaxError

/-! ### Decoding -/

/-- **A trace can be decoded.** Take any parse over any source, and any other one. If their traces
have the same lines, or the same text with line feeds between the lines, then they are the same but
for the kind of the token rejected by their last events. Each event has one line, and a rejection
two, and each of them is a line of text, as no token of the source holds a line feed. The chain of
a syntax error has one line for each entry, from the outside inwards and each with its indents; and
cut at its line feeds, the text of the chain is these lines. -/
theorem trace_uniquely_decodable (source : Reader) (limit : Option Nat) (start : Rule) :
    (∀ (source' : Reader) (limit' : Option Nat) (start' : Rule),
      (source.traced limit start).lines = (source'.traced limit' start').lines ∨
        "\n".intercalate (source.traced limit start).lines =
          "\n".intercalate (source'.traced limit' start').lines →
      TracesAlike (source.traced limit start).events (source'.traced limit' start').events) ∧
    (∀ e ∈ (source.traced limit start).events,
      (e.lines.length = match e with | .rejected .. => 2 | _ => 1) ∧
        ∀ line ∈ e.lines, OneLine line) ∧
    (∀ t ∈ (Feed.drain source).1, OneLine t.text) ∧
    ∀ e, (recorded limit source start).1 = some (.syntaxError e) → ∀ indent, OneLine indent →
      (e.trail indent).length = e.frames.length ∧
        (∀ depth frame, e.frames.reverse[depth]? = some frame → (e.trail indent)[depth]? =
          some (String.join (List.replicate depth indent) ++ frame.message)) ∧
        (e.trailText indent).toList.splitOn '\n' = (e.trail indent).map String.toList := by
  obtain ⟨hlegible, herror⟩ := legible_of_recorded limit source start
  refine ⟨?_, ?_, fun t ht => (Reader.readable_of_mem_drain ht).oneLine, ?_⟩
  · rintro source' limit' start' (hlines | htext)
    · exact tracesAlike_of_lines hlines
    · exact tracesAlike_of_lines
        (Text.eq_of_intercalate Reader.oneLine_of_mem_traced Reader.oneLine_of_mem_traced htext)
  · intro e he
    refine ⟨?_, (hlegible e he).oneLine⟩
    cases e <;> rfl
  · intro e he indent hindent
    refine ⟨?_, fun depth frame => SyntaxError.getElem?_trail, ?_⟩
    · rw [SyntaxError.trail, List.length_mapIdx, List.length_reverse]
    · exact Text.splitOn_intercalate ((herror e he).oneLine_trail hindent) (e.trail_ne_nil indent)

/-- A reserved word. -/
def bareWord : Reader :=
  .ofText "end"

/-- The same word in quotes. -/
def quotedWord : Reader :=
  .ofText "\"end\""

/-- A parse that asks for a factor rejects both, and their traces differ in the kind alone: they
have the same lines. -/
theorem trace_uniquely_decodable_quotedWord :
    (bareWord.traced none .factor).lines = (quotedWord.traced none .factor).lines ∧
      TracesAlike (bareWord.traced none .factor).events (quotedWord.traced none .factor).events ∧
      (bareWord.traced none .factor).events =
        [.opened .factor, .rejected ⟨.endWord, "end", 1⟩ (.choice .factor 1)] ∧
      (quotedWord.traced none .factor).events =
        [.opened .factor, .rejected ⟨.stringConstant, "end", 1⟩ (.choice .factor 1)] ∧
      ∃ e, (recorded none bareWord .factor).1 = some (.syntaxError e) ∧
        (e.trailText "  ").toList.splitOn '\n' = (e.trail "  ").map String.toList ∧
        e.trail "  " = ["'<factor>' at line 1.",
          "  expected 'identifier', 'numberConstant' or '(' at line 1, found: 'end'"] := by
  have hbare : recorded none bareWord .factor = (_, _) :=
    parse_of_run rfl (Cursor.run_eq_iff.2 ⟨_, _, .refl, .choice rfl rfl⟩)
  have hquoted : recorded none quotedWord .factor = (_, _) :=
    parse_of_run rfl (Cursor.run_eq_iff.2 ⟨_, _, .refl, .choice rfl rfl⟩)
  have hevents : (bareWord.traced none .factor).events =
      [.opened .factor, .rejected ⟨.endWord, "end", 1⟩ (.choice .factor 1)] := by
    rw [Reader.traced, hbare]
    rfl
  have hevents' : (quotedWord.traced none .factor).events =
      [.opened .factor, .rejected ⟨.stringConstant, "end", 1⟩ (.choice .factor 1)] := by
    rw [Reader.traced, hquoted]
    rfl
  have hlines : (bareWord.traced none .factor).lines = (quotedWord.traced none .factor).lines := by
    rw [Sink.lines, Sink.lines, hevents, hevents']
    rfl
  obtain ⟨hdecodes, -, -, hchain⟩ := trace_uniquely_decodable bareWord none .factor
  have hstop := congrArg Prod.fst hbare
  obtain ⟨-, -, hcut⟩ := hchain _ hstop "  " (by decide)
  exact ⟨hlines, hdecodes quotedWord none .factor (.inl hlines), hevents, hevents', _, hstop, hcut,
    by decide⟩

end SccSharp
