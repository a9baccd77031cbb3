import Mathlib.Data.List.Forall2
import SccSharp.Proofs.Encoding
import SccSharp.Proofs.Layout
import SccSharp.Proofs.Mirroring
import SccSharp.Proofs.Redrawing

/-!
# The two kinds of line ends

A line may be ended by a line feed, or by a carriage return and a line feed. A text is read with its
carriage returns, which are blanks at the ends of its lines then, while the bytes of a file are read
without them. This makes no difference to anything but the name of the file.

Two lines that differ only in the blanks at their ends (`Text.SameInk`) hold the same lexemes at the
same columns, since no lexeme ends with a blank. So readers whose lines differ only in this way
mirror each other (`Reader.Alike.mirrors`): what one of them draws the other draws as well, but that
each names its own file in its reports.

## Main Definitions

* `Text.SameInk` — lines that differ only in the blanks at their ends
* `Text.ReturnsBeforeFeeds` — texts with carriage returns only in front of line feeds
* `Text.withoutReturns` — a text with one kind of line end
* `Reader.Alike` — readers whose lines differ only in the blanks at their ends

## Main Statements

* `Reader.Alike.mirrors` — such readers draw the same
* `line_ends_indifferent` — so do readers over a text with one kind of line end or the other
-/

namespace SccSharp

/-! ### Lexemes and the blanks behind them -/

/-- No lexeme ends with a blank. -/
theorem Spells.isBlank_last {kind : Terminal} {text : String} {part : List Char} {d : Char}
    (h : Spells kind text (part ++ [d])) : Text.isBlank d = false := by
  obtain ⟨c, rest, hsplit, hclass⟩ := h.exists_class
  have hlast : d ∈ c :: rest := by
    rw [← hsplit]
    exact List.mem_append_right part (List.mem_singleton_self d)
  cases hclass with
  | word _ hword =>
      obtain ⟨first, more, hword, halpha, hmore⟩ := hword
      rw [hword] at hlast
      have hcharacter : Lexeme.isWordCharacter d = true := by
        rcases List.mem_cons.1 hlast with rfl | hd
        · simp [Lexeme.isWordCharacter, Char.isAlphanum, halpha]
        · simpa [Lexeme.isWordCharacter] using hmore d hd
      have hgoes : GoesOn .identifier d := .word (.inl rfl) hcharacter
      exact hgoes.isBlank_eq_false
  | number _ _ hnumber =>
      exact (GoesOn.number rfl (hnumber.isDigit_or_point d hlast)).isBlank_eq_false
  | string _ hbody =>
      rw [hbody, ← List.cons_append] at hsplit
      obtain ⟨-, hquote⟩ := List.append_inj' hsplit rfl
      obtain ⟨rfl, -⟩ := List.cons.inj hquote
      decide
  | operator _ _ _ htext hmem =>
      have hall : ∀ entry ∈ Terminal.operators,
          entry.1.toList.getLast?.all fun c => Text.isBlank c = false := by decide
      have hblank := hall _ hmem
      rw [htext, ← hsplit, List.getLast?_concat] at hblank
      simpa using hblank

/-- A lexeme at the front of a line does not reach into the blanks at its end. -/
theorem IsLexeme.isPrefix_of_blank {spelling body gap : List Char} (h : IsLexeme spelling)
    (hgap : Text.AllBlank gap) (hfront : spelling <+: body ++ gap) : spelling <+: body := by
  rcases List.prefix_or_prefix_of_prefix hfront (List.prefix_append body gap) with
    hbody | ⟨tail, rfl⟩
  · exact hbody
  · rcases List.eq_nil_or_concat tail with rfl | ⟨init, d, rfl⟩
    · simp
    · obtain ⟨kind, text, hspells⟩ := h
      rw [List.concat_eq_append, ← List.append_assoc] at hspells
      have htail := (List.prefix_append_right_inj body).1 hfront
      have hblank := hgap d (htail.subset (by simp))
      rw [hspells.isBlank_last] at hblank
      cases hblank

/-- **Blanks at the end of a line** make no difference to the lexeme read from it. -/
theorem Lexeme.read_append_blank {c : Char} {rest gap : List Char} (hgap : Text.AllBlank gap) :
    read c (rest ++ gap) = read c rest := by
  have hback : ∀ other, other <+: c :: rest ++ gap → IsLexeme other → other <+: c :: rest :=
    fun other hfront hlexeme => hlexeme.isPrefix_of_blank hgap hfront
  cases hread : read c rest with
  | ok lexeme =>
      obtain ⟨text, hspells⟩ := exists_spells_of_read hread
      have hlongest := longest_of_read hread
      have hfront : lexeme.spelling <+: c :: (rest ++ gap) :=
        hlongest.isPrefix.trans (List.prefix_append (c :: rest) gap)
      refine read_of_longest hspells ⟨hfront, ?_⟩
      intro other hother hlexeme
      exact hlongest.length_le other (hback other hother hlexeme) hlexeme
  | error fault =>
      rw [fault_of_read hread]
      refine read_of_none ?_
      rintro other hother ⟨kind, text, hspells⟩
      have hfront := hback other hother ⟨kind, text, hspells⟩
      obtain ⟨lexeme, hok, -⟩ := exists_read_of_spells hspells hfront
      rw [hread] at hok
      cases hok

/-! ### Lines with the same ink -/

namespace Text

/-- **Lines that differ only in the blanks at their ends.** -/
inductive SameInk : List Char → List Char → Prop where
  | intro (body : List Char) {gap gap' : List Char} :
      AllBlank gap → AllBlank gap' → SameInk (body ++ gap) (body ++ gap')

namespace SameInk

variable {line line' : List Char}

theorem refl (line : List Char) : SameInk line line := by
  have hnil : AllBlank [] := fun c hc => absurd hc List.not_mem_nil
  have h := SameInk.intro line hnil hnil
  rwa [List.append_nil] at h

theorem symm (h : SameInk line line') : SameInk line' line := by
  cases h with
  | intro body hgap hgap' => exact .intro body hgap' hgap

/-- A character put in front of both lines. -/
theorem cons (c : Char) (h : SameInk line line') : SameInk (c :: line) (c :: line') := by
  cases h with
  | intro body hgap hgap' => exact .intro (c :: body) hgap hgap'

/-- As many characters passed on both lines. -/
theorem drop (n : Nat) (h : SameInk line line') : SameInk (line.drop n) (line'.drop n) := by
  cases h with
  | @intro body gap gap' hgap hgap' =>
      rw [List.drop_append, List.drop_append]
      exact .intro _ (fun c hc => hgap c (List.mem_of_mem_drop hc))
        (fun c hc => hgap' c (List.mem_of_mem_drop hc))

/-- Both lines are blank, or after the same blanks comes the same character. -/
theorem cases_front (h : SameInk line line') :
    (AllBlank line ∧ AllBlank line') ∨
      ∃ gap c tail tail', line = gap ++ c :: tail ∧ line' = gap ++ c :: tail' ∧ AllBlank gap ∧
        isBlank c = false ∧ SameInk tail tail' := by
  cases h with
  | @intro body end_ end' hend hend' =>
      obtain ⟨gap, rest, rfl, hgap, hfirst⟩ := exists_gap body
      cases rest with
      | nil =>
          rw [List.append_nil]
          exact .inl ⟨fun c hc => (List.mem_append.1 hc).elim (hgap c) (hend c),
            fun c hc => (List.mem_append.1 hc).elim (hgap c) (hend' c)⟩
      | cons c tail =>
          exact .inr ⟨gap, c, tail ++ end_, tail ++ end', by simp, by simp, hgap,
            hfirst c tail rfl, .intro tail hend hend'⟩

/-- The same lexeme is read from both lines. -/
theorem read_eq (c : Char) (h : SameInk line line') : Lexeme.read c line = Lexeme.read c line' := by
  cases h with
  | intro body hgap hgap' =>
      rw [Lexeme.read_append_blank hgap, Lexeme.read_append_blank hgap']

end SameInk

end Text

/-! ### Readings and places -/

/-- **Readings that give the same** but for the blanks at the end of a line. -/
inductive Reading.Alike : Reading → Reading → Prop where
  | line {text text' : List Char} : Text.SameInk text text' → text ≠ [] → text' ≠ [] →
      Alike (.line text) (.line text')
  | ended : Alike (.line []) (.line [])
  | failure (reason : ReadFailure) : Alike (.failure reason) (.failure reason)

namespace Reading.Alike

theorem refl (reading : Reading) : reading.Alike reading := by
  cases reading with
  | line text =>
      cases text with
      | nil => exact .ended
      | cons c rest => exact .line (.refl _) (List.cons_ne_nil _ _) (List.cons_ne_nil _ _)
  | failure reason => exact .failure reason

theorem symm {reading reading' : Reading} (h : reading.Alike reading') :
    reading'.Alike reading := by
  cases h with
  | line hink hne hne' => exact .line hink.symm hne' hne
  | ended => exact .ended
  | failure reason => exact .failure reason

end Reading.Alike

/-- **Places that differ only in the blanks at the ends of their lines.** The columns are the same
as long as something other than blanks is left. -/
structure Place.Alike (p p' : Place) : Prop where
  linesRead : p.linesRead = p'.linesRead
  ink : Text.SameInk p.rest p'.rest
  column : ¬ Text.AllBlank p.rest → p.column = p'.column

/-- **What arrives is the same** but for the blanks at the end of the line. -/
inductive Arrival.Alike : Arrival → Arrival → Prop where
  | text {c : Char} {tail tail' : List Char} : Text.isBlank c = false → Text.SameInk tail tail' →
      Alike (.text c tail) (.text c tail')
  | failed (reason : ReadFailure) : Alike (.failed reason) (.failed reason)
  | ended : Alike .ended .ended

namespace Place.Alike

variable {p p' : Place}

/-- As many characters passed in both places. -/
theorem pass (n : Nat) (h : p.Alike p') : (p.pass n).Alike (p'.pass n) where
  linesRead := h.linesRead
  ink := h.ink.drop n
  column := by
    intro hleft
    have hrest : ¬ Text.AllBlank p.rest :=
      fun hblank => hleft fun c hc => hblank c (List.mem_of_mem_drop hc)
    exact congrArg (· + n) (h.column hrest)

/-- The next line read in both places. -/
theorem startLine {line line' : List Char} (h : p.Alike p') (hink : Text.SameInk line line') :
    (p.startLine line).Alike (p'.startLine line') where
  linesRead := congrArg (· + 1) h.linesRead
  ink := hink
  column := fun _ => rfl

/-- All of a blank line passed in both places. -/
theorem passLine (h : p.Alike p') (hblank : Text.AllBlank p.rest) :
    (p.pass p.rest.length).Alike (p'.pass p'.rest.length) where
  linesRead := h.linesRead
  ink := by
    rw [rest_pass, rest_pass, List.drop_length, List.drop_length]
    exact .refl []
  column := by
    intro hleft
    exact absurd (fun c hc => hblank c (List.mem_of_mem_drop hc)) hleft

/-- **Seeking finds the same** from places and in readings that are alike. -/
theorem seek {script script' left : List Reading} {arrival : Arrival} {q : Place} (h : p.Alike p')
    (hscript : List.Forall₂ Reading.Alike script script')
    (hseek : SccSharp.seek p script = (arrival, q, left)) :
    ∃ arrival' q' left', SccSharp.seek p' script' = (arrival', q', left') ∧
      arrival.Alike arrival' ∧ q.Alike q' ∧ List.Forall₂ Reading.Alike left left' := by
  -- line by line, until one of them holds more than blanks
  induction hscript generalizing p p' with
  | nil =>
      rcases h.ink.cases_front with ⟨hblank, hblank'⟩ |
        ⟨gap, c, tail, tail', hrest, hrest', hgap, hc, hink⟩
      · rw [seek_nil_of_blank hblank] at hseek
        cases hseek
        exact ⟨_, _, _, seek_nil_of_blank hblank', .ended, h.passLine hblank, .nil⟩
      · rw [seek_of_text _ hrest hgap hc] at hseek
        cases hseek
        exact ⟨_, _, _, seek_of_text _ hrest' hgap hc, .text hc hink, h.pass _, .nil⟩
  | cons hreading hscript ih =>
      rcases h.ink.cases_front with ⟨hblank, hblank'⟩ |
        ⟨gap, c, tail, tail', hrest, hrest', hgap, hc, hink⟩
      · obtain ⟨hskip, hnil⟩ := skipBlanks_of_blank hblank
        obtain ⟨hskip', hnil'⟩ := skipBlanks_of_blank hblank'
        cases hreading with
        | line hink hne hne' =>
            rw [seek_line_of_blank hblank _ hne] at hseek
            rw [seek_line_of_blank hblank' _ hne']
            exact ih (h.startLine hink) hseek
        | ended =>
            simp only [SccSharp.seek, hskip, hnil] at hseek
            cases hseek
            simp only [SccSharp.seek, hskip', hnil']
            exact ⟨_, _, _, rfl, .ended, h.passLine hblank, hscript⟩
        | failure reason =>
            simp only [SccSharp.seek, hskip, hnil] at hseek
            cases hseek
            simp only [SccSharp.seek, hskip', hnil']
            exact ⟨_, _, _, rfl, .failed reason, h.passLine hblank, hscript⟩
      · rw [seek_of_text _ hrest hgap hc] at hseek
        cases hseek
        exact ⟨_, _, _, seek_of_text _ hrest' hgap hc, .text hc hink, h.pass _,
          .cons hreading hscript⟩

end Place.Alike

/-! ### Readers -/

/-- A report on the same place of another file. -/
def Diagnostic.inFile (file : String) (report : Diagnostic) : Diagnostic :=
  { report with location := { report.location with file := file } }

/-- A failure with its report moved to another file. -/
def SourceFailure.inFile (file : String) : SourceFailure → SourceFailure
  | .malformed report => .malformed (report.inFile file)
  | .unreadable reason => .unreadable reason

/-- The file is named in the location only. -/
theorem Fault.inFile_diagnostic (fault : Fault) (file : String) (location : Location) :
    (fault.diagnostic location).inFile file =
      fault.diagnostic { location with file := file } := by
  cases fault <;> rfl

/-- **Readers whose lines differ only in the blanks at their ends**; the first reads `file`. -/
structure Reader.Alike (file : String) (r r' : Reader) : Prop where
  named : r.file = file
  script : List.Forall₂ Reading.Alike r.script r'.script
  place : r.place.Alike r'.place
  ended : r.ended = r'.ended

namespace Reader.Alike

variable {file : String} {r r' : Reader}

/-- Both readers are on the same line. -/
theorem line_eq (h : r.Alike file r') : r.line = r'.line := by
  rw [line, line, h.ended, h.place.linesRead]

/-- **Both readers arrive at the same**, and are alike there. -/
theorem exists_arrival {p : Place} {script : List Reading} {arrival : Arrival}
    (h : r.Alike file r') (hseek : SccSharp.seek r.place r.script = (arrival, p, script)) :
    ∃ arrival' p' script', SccSharp.seek r'.place r'.script = (arrival', p', script') ∧
      arrival.Alike arrival' ∧ (r.arrive p script).Alike file (r'.arrive p' script') := by
  obtain ⟨arrival', p', script', hseek', harrival, hplace, hscript⟩ := h.place.seek h.script hseek
  exact ⟨arrival', p', script', hseek', harrival, h.named, hscript, hplace, h.ended⟩

/-- Where text arrives, both readers are at the same location, but for the file. -/
theorem location_eq {c : Char} {tail : List Char} (h : r.Alike file r')
    (hrest : r.place.rest = c :: tail) (hc : Text.isBlank c = false) :
    r.location = { r'.location with file := file } := by
  have hink : ¬ Text.AllBlank r.place.rest := by
    intro hblank
    have hfirst := hblank c (by rw [hrest]; exact List.mem_cons_self)
    rw [hc] at hfirst
    cases hfirst
  rw [location, location, h.line_eq, h.named, h.place.column hink]

/-- **What the one reader draws the other draws too**, but that each names its own file. -/
theorem exists_drawn {result : Except SourceFailure Token} {left : Reader} (h : r.Alike file r')
    (hdrawn : r.Drawn result left) :
    ∃ result' left', r'.Drawn result' left' ∧
      result = result'.mapError (SourceFailure.inFile file) ∧ left.Alike file left' := by
  cases hdrawn with
  | exhausted hended =>
      refine ⟨_, r', .exhausted (h.ended ▸ hended), ?_, h⟩
      rw [h.line_eq]
      rfl
  | @ended p script hrunning hseek =>
      obtain ⟨arrival', p', script', hseek', harrival, harrive⟩ := h.exists_arrival hseek
      cases harrival with
      | ended =>
          have hleft : Alike file { r with place := p, script := script, ended := true }
              { r' with place := p', script := script', ended := true } :=
            ⟨harrive.named, harrive.script, harrive.place, rfl⟩
          refine ⟨_, _, .ended (h.ended ▸ hrunning) hseek', ?_, hleft⟩
          rw [hleft.line_eq]
          rfl
  | unreadable hrunning hseek =>
      obtain ⟨arrival', p', script', hseek', harrival, harrive⟩ := h.exists_arrival hseek
      cases harrival with
      | failed reason => exact ⟨_, _, .unreadable (h.ended ▸ hrunning) hseek', rfl, harrive⟩
  | malformed hrunning hseek hread =>
      obtain ⟨arrival', p', script', hseek', harrival, harrive⟩ := h.exists_arrival hseek
      cases harrival with
      | text hc hink =>
          rw [hink.read_eq] at hread
          refine ⟨_, _, .malformed (h.ended ▸ hrunning) hseek' hread, ?_, harrive⟩
          rw [harrive.location_eq (seek_text hseek) hc, ← Fault.inFile_diagnostic]
          rfl
  | token hrunning hseek hread =>
      obtain ⟨arrival', p', script', hseek', harrival, harrive⟩ := h.exists_arrival hseek
      cases harrival with
      | text hc hink =>
          rw [hink.read_eq] at hread
          refine ⟨_, _, .token (h.ended ▸ hrunning) hseek' hread, ?_,
            harrive.named, harrive.script, harrive.place.pass _, harrive.ended⟩
          rw [harrive.line_eq]
          rfl

/-- **Readers that are alike mirror each other.** -/
theorem mirrors (file : String) : Feed.Mirrors (SourceFailure.inFile file) (Reader.Alike file) := by
  intro r r' h
  obtain ⟨result', left', hdrawn', hresult, hleft⟩ := h.exists_drawn r.drawn
  have hdraw' : Feed.draw r' = (result', left') := hdrawn'.draw_eq
  rw [hdraw']
  exact ⟨hresult, hleft⟩

end Reader.Alike

/-! ### Texts with one kind of line end or the other -/

namespace Text

/-- **Carriage returns only in front of line feeds.** -/
def ReturnsBeforeFeeds (text : List Char) : Prop :=
  ∀ before after, text = before ++ '\r' :: after → after.head? = some '\n'

/-- **One kind of line end**: a line feed in place of every carriage return and line feed. -/
def withoutReturns : List Char → List Char
  | '\r' :: '\n' :: rest => '\n' :: withoutReturns rest
  | c :: rest => c :: withoutReturns rest
  | [] => []

theorem returnsBeforeFeeds_nil : ReturnsBeforeFeeds [] := by
  intro before after h
  exact absurd (List.append_eq_nil_iff.1 h.symm).2 (List.cons_ne_nil _ _)

/-- The rule at the front of a text. -/
theorem returnsBeforeFeeds_cons (c : Char) (rest : List Char) :
    ReturnsBeforeFeeds (c :: rest) ↔
      (c = '\r' → rest.head? = some '\n') ∧ ReturnsBeforeFeeds rest := by
  constructor
  · intro h
    exact ⟨fun hc => h [] rest (by rw [hc]; rfl),
      fun before after hrest => h (c :: before) after (by rw [hrest]; rfl)⟩
  · rintro ⟨hfirst, hrest⟩ before after htext
    cases before with
    | nil =>
        obtain ⟨hc, rfl⟩ := List.cons.inj htext
        exact hfirst hc
    | cons d before => exact hrest before after (List.cons.inj htext).2

instance decidableReturnsBeforeFeeds : (text : List Char) → Decidable (ReturnsBeforeFeeds text)
  | [] => .isTrue returnsBeforeFeeds_nil
  | c :: rest =>
      have := decidableReturnsBeforeFeeds rest
      decidable_of_iff _ (returnsBeforeFeeds_cons c rest).symm

/-- Unifying the line ends of such a text leaves out its carriage returns. -/
theorem unifyNewlines_eq_withoutReturns {text : List Char} (h : ReturnsBeforeFeeds text) :
    unifyNewlines text = withoutReturns text := by
  fun_induction withoutReturns text with
  | case1 rest ih =>
      have hrest := ((returnsBeforeFeeds_cons _ _).1 ((returnsBeforeFeeds_cons _ _).1 h).2).2
      rw [unifyNewlines_cons, if_pos rfl, if_pos List.head?_cons, unifyNewlines_cons,
        if_neg (by decide), ih hrest]
  | case2 c rest hother ih =>
      obtain ⟨hfeed, hrest⟩ := (returnsBeforeFeeds_cons c rest).1 h
      have hc : c ≠ '\r' := by
        rintro rfl
        obtain ⟨more, rfl⟩ := List.head?_eq_some_iff.1 (hfeed rfl)
        exact hother more rfl rfl
      rw [unifyNewlines_cons, if_neg hc, ih hrest]
  | case3 => rfl

/-- And then there is nothing left to unify. -/
theorem unifyNewlines_withoutReturns {text : List Char} (h : ReturnsBeforeFeeds text) :
    unifyNewlines (withoutReturns text) = withoutReturns text := by
  rw [← unifyNewlines_eq_withoutReturns h]
  exact unifyNewlines_of_not_mem (not_mem_unifyNewlines text)

/-- A character in front of lines that are alike. -/
theorem forall₂_consLine (c : Char) {ls ls' : List (List Char)}
    (h : List.Forall₂ Reading.Alike (ls.map .line) (ls'.map .line)) :
    List.Forall₂ Reading.Alike ((consLine c ls).map .line) ((consLine c ls').map .line) := by
  unfold consLine
  split
  · exact .cons (.refl _) h
  · cases ls with
    | nil =>
        cases ls' with
        | nil => exact .cons (.refl _) .nil
        | cons line' more' => cases h
    | cons line more =>
        cases ls' with
        | nil => cases h
        | cons line' more' =>
            cases h with
            | cons hline hmore =>
                refine .cons (.line ?_ (List.cons_ne_nil _ _) (List.cons_ne_nil _ _)) hmore
                cases hline with
                | line hink => exact hink.cons c
                | ended => exact .refl _

/-- **The lines of a text** differ from those without carriage returns only in the blanks at their
ends. -/
theorem alike_withoutReturns (text : List Char) :
    List.Forall₂ Reading.Alike (Reading.ofText text) (Reading.ofText (withoutReturns text)) := by
  fun_induction withoutReturns text with
  | case1 rest ih =>
      have hink : SameInk ['\r', '\n'] ['\n'] :=
        .intro [] (by simp [AllBlank, isBlank_return, isBlank_newline])
          (by simp [AllBlank, isBlank_newline])
      exact .cons (.line hink (List.cons_ne_nil _ _) (List.cons_ne_nil _ _)) ih
  | case2 c rest _ ih => exact forall₂_consLine c ih
  | case3 => exact .nil

end Text

/-- **The forms that a text is kept in**: with or without its carriage returns, as a text or as the
bytes of a file. -/
inductive Reader.OverForm (text : String) : Reader → Prop where
  | text (file : String) : OverForm text (.ofText text file)
  | plain (file : String) :
      OverForm text (.ofText (String.ofList (Text.withoutReturns text.toList)) file)
  | bytes (file : String) : OverForm text (.ofBytes (Text.Utf8.encode text.toList) file)
  | plainBytes (file : String) :
      OverForm text (.ofBytes (Text.Utf8.encode (Text.withoutReturns text.toList)) file)

namespace Reader.OverForm

variable {text : String} {r r' : Reader}

/-- A reader over a form has the lines of the text ahead, with or without its carriage returns. -/
theorem ahead (h : OverForm text r) (hreturns : Text.ReturnsBeforeFeeds text.toList) :
    r.place = {} ∧ r.ended = false ∧
      (r.script = Reading.ofText text.toList ∨
        r.script = Reading.ofText (Text.withoutReturns text.toList)) := by
  cases h with
  | text file => exact ⟨rfl, rfl, .inl rfl⟩
  | plain file => exact ⟨rfl, rfl, .inr (by rw [ofText, String.toList_ofList])⟩
  | bytes file =>
      refine ⟨rfl, rfl, .inr ?_⟩
      rw [ofBytes, Reading.ofBytes_encode, Text.Newlines.read,
        Text.unifyNewlines_eq_withoutReturns hreturns]
  | plainBytes file =>
      refine ⟨rfl, rfl, .inr ?_⟩
      rw [ofBytes, Reading.ofBytes_encode, Text.Newlines.read,
        Text.unifyNewlines_withoutReturns hreturns]

/-- **Readers over two forms of a text are alike.** -/
theorem alike (h : OverForm text r) (h' : OverForm text r')
    (hreturns : Text.ReturnsBeforeFeeds text.toList) : r.Alike r.file r' := by
  obtain ⟨hplace, hended, hscript⟩ := h.ahead hreturns
  obtain ⟨hplace', hended', hscript'⟩ := h'.ahead hreturns
  have hlines := Text.alike_withoutReturns text.toList
  refine ⟨rfl, ?_, ?_, hended.trans hended'.symm⟩
  · rcases hscript with hscript | hscript <;> rcases hscript' with hscript' | hscript' <;>
      rw [hscript, hscript']
    · exact List.forall₂_same.2 fun reading _ => .refl reading
    · exact hlines
    · exact hlines.flip.imp fun _ _ halike => halike.symm
    · exact List.forall₂_same.2 fun reading _ => .refl reading
  · rw [hplace, hplace']
    exact ⟨rfl, .refl [], fun _ => rfl⟩

end Reader.OverForm

/-- A text has tokens or is malformed; it is never unreadable. -/
theorem tokensOf_ofText (text file : String) :
    (∃ tokens, tokensOf (.ofText text file) = .ok tokens) ∨
      ∃ report, tokensOf (.ofText text file) = .error (.malformed report) := by
  obtain ⟨pieces, gap, rest, -, -, -, -, hended, hfault⟩ := drain_eq_cut text file
  cases rest with
  | nil =>
      obtain ⟨last, hdrain⟩ := hended rfl
      exact .inl ⟨_, by rw [tokensOf, hdrain]⟩
  | cons c more =>
      obtain ⟨last, hdrain⟩ := hfault c more rfl
      exact .inr ⟨_, by rw [tokensOf, hdrain]⟩

/-- **The two kinds of line ends make no difference.** If carriage returns stand only in front of
line feeds, then a text with them, a text without them and the bytes of either have the same tokens,
or they are at fault with the same report in the same place; and under every limit a check comes to
the same for each of them, by whatever rule it starts and whatever becomes of the events. -/
theorem line_ends_indifferent (text : String) (h : Text.ReturnsBeforeFeeds text.toList) :
    ((∃ tokens, ∀ r, Reader.OverForm text r → tokensOf r = .ok tokens) ∨
      ∃ report : Diagnostic, ∀ r, Reader.OverForm text r →
        tokensOf r = .error (.malformed (report.inFile r.file))) ∧
    ∀ r r', Reader.OverForm text r → Reader.OverForm text r' → ∀ limit start sink,
      SameAnalysis (SourceFailure.inFile r.file) (check r start sink (.limited limit))
        (check r' start sink (.limited limit)) := by
  have htokens : ∀ r, Reader.OverForm text r →
      tokensOf r = (tokensOf (.ofText text)).mapError (SourceFailure.inFile r.file) :=
    fun r hr => tokensOf_mirrored (Reader.Alike.mirrors r.file) (hr.alike (.text _) h)
  refine ⟨?_, ?_⟩
  · rcases tokensOf_ofText text "<string>" with ⟨tokens, hok⟩ | ⟨report, hfault⟩
    · refine .inl ⟨tokens, fun r hr => ?_⟩
      rw [htokens r hr, hok]
      rfl
    · refine .inr ⟨report, fun r hr => ?_⟩
      rw [htokens r hr, hfault]
      rfl
  · intro r r' hr hr' limit start sink
    exact analyse_mirrored (Reader.Alike.mirrors r.file) (hr.alike hr' h) limit start sink

/-- A letter and, on the next line, a string that is not closed in front of the line end. -/
def openString : String :=
  "a\r\n \"b\r\n"

/-- It is reported at its opening quote in every form, and checks of any two forms agree. -/
theorem line_ends_indifferent_openString :
    Text.ReturnsBeforeFeeds openString.toList ∧
      (∀ r, Reader.OverForm openString r → tokensOf r =
        .error (.malformed (Fault.unterminatedString.diagnostic ⟨r.file, 2, 2⟩))) ∧
      ∀ limit start sink, SameAnalysis (SourceFailure.inFile "a.scc")
        (check (.ofBytes (Text.Utf8.encode openString.toList) "a.scc") start sink (.limited limit))
        (check (.ofText openString) start sink (.limited limit)) := by
  have hreturns : Text.ReturnsBeforeFeeds openString.toList := by decide
  obtain ⟨htokens, hchecks⟩ := line_ends_indifferent openString hreturns
  refine ⟨hreturns, ?_, hchecks _ _ (.bytes "a.scc") (.text "<string>")⟩
  have hgives : Feed.Gives (Reader.ofText openString) [⟨.identifier, "a", 1⟩]
      (.error (.malformed (Fault.unterminatedString.diagnostic ⟨"<string>", 2, 2⟩))) :=
    .token rfl (by decide) (.failure rfl)
  have hfault := hgives.tokensOf_eq
  rcases htokens with ⟨tokens, hok⟩ | ⟨report, hreport⟩
  · rw [hok _ (.text "<string>")] at hfault
    cases hfault
  · intro r hr
    rw [hreport _ (.text "<string>")] at hfault
    have hsame : report.inFile "<string>" =
        Fault.unterminatedString.diagnostic ⟨"<string>", 2, 2⟩ :=
      SourceFailure.malformed.inj (Except.error.inj hfault)
    rw [hreport r hr, ← Fault.inFile_diagnostic _ r.file ⟨"<string>", 2, 2⟩, ← hsame]
    rfl

end SccSharp
