import SccSharp.Proofs.Spelling
import SccSharp.Reader

/-!
# Readers within a text

Where a reader over a text stands. At any time some of the text has been passed and the rest lies
ahead: first what is left of the current line, then lines that have not been read. `Place.At` says
that of a place and `Reader.At` of a reader, and both are kept when characters are passed and lines
are read.

So a draw can be told from the text alone (`Reader.At.draw_token`, `draw_fault`, `draw_end`): it
passes the blanks, and what comes after them is a lexeme, a fault or the end. Lines and columns are
counted in what was passed.

## Main Definitions

* `Text.lineCount`, `Text.lineAfter`, `Text.columnAfter` — lines and columns, counted in a text
* `Text.IsLine` — what is left of a line in front of the lines after it
* `Reader.At` — a reader with some text passed and some ahead

## Main Statements

* `Place.At.seek_text`, `Place.At.seek_end` — seeking passes the blanks
* `Reader.At.draw_token`, `Reader.At.draw_fault`, `Reader.At.draw_end` — what a draw gives
-/

namespace SccSharp

namespace Text

/-- **A gap** between tokens: blank characters, or nothing. -/
def AllBlank (gap : List Char) : Prop :=
  ∀ c ∈ gap, isBlank c = true

/-! ### Lines and columns -/

/-- The first line of a text, without the line feed that ends it. -/
def firstLine (text : List Char) : List Char :=
  text.takeWhile (· != '\n')

/-- The last line of a text: what comes after its last line feed. -/
def lastLine (text : List Char) : List Char :=
  (text.reverse.takeWhile (· != '\n')).reverse

/-- **The number of lines of a text.** The last line counts only if it is not empty. -/
def lineCount (text : List Char) : Nat :=
  text.count '\n' + if lastLine text = [] then 0 else 1

/-- The line of the character after a text. -/
def lineAfter (passed : List Char) : Nat :=
  passed.count '\n' + 1

/-- The column of the character after a text. -/
def columnAfter (passed : List Char) : Nat :=
  (lastLine passed).length + 1

/-- A line feed starts a line. -/
@[simp] theorem lastLine_newline (text : List Char) : lastLine (text ++ ['\n']) = [] := by
  simp [lastLine]

/-- Without line feeds the last line goes on. -/
theorem lastLine_append {text body : List Char} (h : '\n' ∉ body) :
    lastLine (text ++ body) = lastLine text ++ body := by
  have hbody : ∀ c ∈ body.reverse, (c != '\n') = true := by
    intro c hc
    rw [bne_iff_ne]
    rintro rfl
    exact h (List.mem_reverse.1 hc)
  rw [lastLine, List.reverse_append, List.takeWhile_append_of_pos hbody, List.reverse_append,
    List.reverse_reverse, lastLine]

/-- **What is left of a line**, in front of the text after it: it is ended by a line feed, or
nothing comes after it. -/
inductive IsLine : List Char → List Char → Prop where
  | ended {body later : List Char} : '\n' ∉ body → IsLine (body ++ ['\n']) later
  | last {body : List Char} : '\n' ∉ body → body ≠ [] → IsLine body []

namespace IsLine

variable {line later passed : List Char}

theorem ne_nil (h : IsLine line later) : line ≠ [] := by
  cases h with
  | ended => simp
  | last _ hne => exact hne

/-- A character that is no line feed, put in front of a line. -/
theorem cons {c : Char} (h : IsLine line later) (hc : c ≠ '\n') : IsLine (c :: line) later := by
  cases h with
  | @ended body _ hbody =>
      have hline : IsLine (c :: body ++ ['\n']) later := .ended (by simp [hbody, hc.symm])
      exact hline
  | last hbody => exact .last (by simp [hbody, hc.symm]) (List.cons_ne_nil _ _)

/-- What comes before the end of a line holds no line feed, and what comes after is left of it. -/
theorem of_append {part rest : List Char} (h : IsLine (part ++ rest) later) (hrest : rest ≠ []) :
    '\n' ∉ part ∧ IsLine rest later := by
  induction part with
  | nil => exact ⟨by simp, h⟩
  | cons c part ih =>
      generalize hline : c :: part ++ rest = line at h
      cases h with
      | @ended body _ hbody =>
          cases body with
          | nil =>
              have hnil : part ++ rest = [] := (List.cons.inj hline).2
              exact absurd (List.append_eq_nil_iff.1 hnil).2 hrest
          | cons d body =>
              obtain ⟨rfl, htail⟩ := List.cons.inj hline
              have hd := List.ne_of_not_mem_cons hbody
              have hrestLine : IsLine (part ++ rest) later := by
                have hsame : part ++ rest = body ++ ['\n'] := htail
                rw [hsame]
                exact .ended (List.not_mem_of_not_mem_cons hbody)
              obtain ⟨hpart, hline⟩ := ih hrestLine
              exact ⟨List.not_mem_cons_of_ne_of_not_mem hd hpart, hline⟩
      | last hbody hne =>
          rw [← hline] at hbody
          have hc := List.ne_of_not_mem_cons hbody
          obtain ⟨hpart, hline⟩ :=
            ih (.last (List.not_mem_of_not_mem_cons hbody) (by simp [hrest]))
          exact ⟨List.not_mem_cons_of_ne_of_not_mem hc hpart, hline⟩

/-- A line is one line more. -/
theorem lineCount_append (h : IsLine line later) :
    lineCount (passed ++ line) = passed.count '\n' + 1 := by
  cases h with
  | @ended body _ hbody =>
      rw [lineCount, ← List.append_assoc, lastLine_newline, if_pos rfl, List.count_append,
        List.count_append, List.count_eq_zero.2 hbody, List.count_singleton_self, Nat.add_zero]
  | last hbody hne =>
      have hlast : lastLine (passed ++ line) ≠ [] := by
        rw [lastLine_append hbody]
        simp [hne]
      rw [lineCount, if_neg hlast, List.count_append, List.count_eq_zero.2 hbody]

/-- A line that more text comes after is ended. -/
theorem lastLine_append (h : IsLine line later) (hlater : later ≠ []) :
    lastLine (passed ++ line) = [] := by
  cases h with
  | ended => rw [← List.append_assoc, lastLine_newline]
  | last => exact absurd rfl hlater

/-- The first line of a text is the one left, but for the line feed. -/
theorem firstLine_append (h : IsLine line later) :
    line = firstLine (line ++ later) ∨ line = firstLine (line ++ later) ++ ['\n'] := by
  have hall : ∀ body : List Char, '\n' ∉ body → ∀ c ∈ body, (c != '\n') = true := by
    intro body hbody c hc
    rw [bne_iff_ne]
    rintro rfl
    exact hbody hc
  cases h with
  | ended hbody =>
      right
      rw [firstLine, List.append_assoc, List.takeWhile_append_of_pos (hall _ hbody)]
      simp
  | last hbody =>
      left
      rw [firstLine, List.takeWhile_append_of_pos (hall _ hbody)]
      simp

end IsLine

/-- The lines of a text are what is left of it, line by line. -/
theorem lines_eq_cons {text line : List Char} {more : List (List Char)}
    (h : lines text = line :: more) :
    ∃ later, text = line ++ later ∧ more = lines later ∧ IsLine line later := by
  induction text generalizing line more with
  | nil => cases h
  | cons c rest ih =>
      have hcons : consLine c (lines rest) = line :: more := h
      unfold consLine at hcons
      split at hcons
      · next hc =>
          cases hcons
          have hline : IsLine ([] ++ ['\n']) rest := .ended List.not_mem_nil
          exact ⟨rest, by rw [hc]; rfl, rfl, hline⟩
      · next hc =>
          cases hlines : lines rest with
          | nil =>
              rw [hlines] at hcons
              cases hcons
              have hrest : rest = [] := by rw [← flatten_lines rest, hlines]; rfl
              rw [hrest]
              exact ⟨[], rfl, rfl, .last (by simp [Ne.symm hc]) (List.cons_ne_nil _ _)⟩
          | cons first others =>
              rw [hlines] at hcons
              cases hcons
              obtain ⟨later, rfl, hmore, hline⟩ := ih hlines
              exact ⟨later, rfl, hmore, hline.cons hc⟩

/-- A text without lines is empty. -/
theorem eq_nil_of_lines {text : List Char} (h : lines text = []) : text = [] := by
  rw [← flatten_lines text, h]
  rfl

end Text

/-! ### Places -/

namespace Place

/-- **A place in a text**: what is left of the current line comes after the characters passed, and
the text after that line has not been read. -/
structure At (p : Place) (passed later : List Char) : Prop where
  /-- As many lines have been read as there are up to the end of the current one. -/
  linesRead : p.linesRead = Text.lineCount (passed ++ p.rest)
  /-- If more is to be read, the current line is a whole one. -/
  whole : later ≠ [] → Text.lastLine (passed ++ p.rest) = []
  /-- What is left of the line is the end of it, and the column says how much has been passed. -/
  current : p.rest ≠ [] → Text.IsLine p.rest later ∧ p.column = (Text.lastLine passed).length

variable {p : Place} {passed later : List Char}

@[simp] theorem rest_pass (p : Place) (count : Nat) : (p.pass count).rest = p.rest.drop count := rfl

@[simp] theorem rest_startLine (p : Place) (line : List Char) :
    (p.startLine line).rest = line := rfl

/-- The place before a text. -/
theorem at_start (text : List Char) : Place.At {} [] text where
  linesRead := rfl
  whole := fun _ => rfl
  current := fun h => absurd rfl h

/-- **Passing characters of the line.** -/
theorem At.pass {part rest : List Char} (h : p.At passed later) (hrest : p.rest = part ++ rest) :
    (p.pass part.length).rest = rest ∧ (p.pass part.length).At (passed ++ part) later := by
  have hleft : (p.pass part.length).rest = rest := by
    rw [rest_pass, hrest, List.drop_left]
  have hsame : passed ++ part ++ (p.pass part.length).rest = passed ++ p.rest := by
    rw [hleft, hrest, List.append_assoc]
  refine ⟨hleft, ?_, ?_, ?_⟩
  · rw [hsame]
    exact h.linesRead
  · rw [hsame]
    exact h.whole
  · intro hne
    rw [hleft] at hne ⊢
    have hline : p.rest ≠ [] := by simp [hrest, hne]
    obtain ⟨hcurrent, hcolumn⟩ := h.current hline
    rw [hrest] at hcurrent
    obtain ⟨hpart, hcurrent⟩ := hcurrent.of_append hne
    refine ⟨hcurrent, ?_⟩
    rw [Text.lastLine_append hpart, List.length_append, ← hcolumn]
    rfl

/-- **Reading a line** where none is left. -/
theorem At.startLine {line rest : List Char} (h : p.At passed (line ++ rest)) (hrest : p.rest = [])
    (hline : Text.IsLine line rest) : (p.startLine line).At passed rest := by
  have hwhole : Text.lastLine passed = [] := by
    have := h.whole (by simp [hline.ne_nil])
    rwa [hrest, List.append_nil] at this
  refine ⟨?_, hline.lastLine_append, fun _ => ⟨hline, ?_⟩⟩
  · show p.linesRead + 1 = _
    rw [rest_startLine, hline.lineCount_append, h.linesRead, hrest, List.append_nil,
      Text.lineCount, if_pos hwhole, Nat.add_zero]
  · rw [hwhole]
    rfl

/-- The line that a place is on. -/
theorem At.linesRead_eq (h : p.At passed later) (hrest : p.rest ≠ []) :
    p.linesRead = Text.lineAfter passed := by
  rw [h.linesRead, (h.current hrest).1.lineCount_append, Text.lineAfter]

/-- The column that a place is on. -/
theorem At.column_eq (h : p.At passed later) (hrest : p.rest ≠ []) :
    p.column + 1 = Text.columnAfter passed := by
  rw [(h.current hrest).2, Text.columnAfter]

/-! ### Seeking -/

/-- Text on the current line arrives after the blanks. -/
theorem seek_of_text {gap tail : List Char} {c : Char} (script : List Reading)
    (hrest : p.rest = gap ++ c :: tail) (hgap : Text.AllBlank gap) (hc : Text.isBlank c = false) :
    seek p script = (.text c tail, p.pass gap.length, script) := by
  have htake : p.rest.takeWhile Text.isBlank = gap := by
    rw [hrest, List.takeWhile_append_of_pos hgap, List.takeWhile_cons_of_neg (by simp [hc]),
      List.append_nil]
  have hskip : p.skipBlanks = p.pass gap.length := by rw [skipBlanks, htake]
  have harrive : (p.pass gap.length).rest = c :: tail := by
    rw [rest_pass, hrest, List.drop_left]
  cases script with
  | nil => simp only [seek, hskip, harrive]
  | cons reading script => simp only [seek, hskip, harrive]

section BlankLine

variable (hblank : Text.AllBlank p.rest)

include hblank

/-- A line of blanks is skipped as a whole. -/
theorem skipBlanks_of_blank :
    p.skipBlanks = p.pass p.rest.length ∧ (p.pass p.rest.length).rest = [] := by
  have htake : p.rest.takeWhile Text.isBlank = p.rest := by
    rw [← List.append_nil p.rest, List.takeWhile_append_of_pos hblank, List.takeWhile_nil]
  exact ⟨by rw [skipBlanks, htake], by rw [rest_pass, List.drop_length]⟩

/-- After the last line the source ends. -/
theorem seek_nil_of_blank : seek p [] = (.ended, p.pass p.rest.length, []) := by
  obtain ⟨hskip, hnil⟩ := skipBlanks_of_blank hblank
  simp only [seek, hskip, hnil]

/-- After any other line the next one is read. -/
theorem seek_line_of_blank {line : List Char} (script : List Reading) (hline : line ≠ []) :
    seek p (.line line :: script) = seek (p.startLine line) script := by
  obtain ⟨hskip, hnil⟩ := skipBlanks_of_blank hblank
  obtain ⟨c, rest, rfl⟩ := List.exists_cons_of_ne_nil hline
  rw [seek.eq_def]
  simp only [hskip, hnil]

end BlankLine

/-- A line of blanks is passed, and the line after it is read. -/
theorem At.skipLine {line rest : List Char} (h : p.At passed (line ++ rest))
    (hline : Text.IsLine line rest) : (p.startLine line).At (passed ++ p.rest) rest := by
  obtain ⟨hnil, hpassed⟩ := h.pass (List.append_nil p.rest).symm
  exact hpassed.startLine hnil hline

/-- The character after a gap is not on the current line, or it is. -/
theorem split_ahead {line gap more : List Char} {c : Char}
    (h : line ++ later = gap ++ c :: more) :
    (∃ gap', gap = line ++ gap' ∧ later = gap' ++ c :: more) ∨
      ∃ tail, line = gap ++ c :: tail ∧ more = tail ++ later := by
  rcases List.append_eq_append_iff.1 h with hleft | ⟨part, rfl, hpart⟩
  · exact .inl hleft
  · cases part with
    | nil => exact .inl ⟨[], by simp, hpart.symm⟩
    | cons d tail =>
        obtain ⟨rfl, hmore⟩ := List.cons.inj hpart
        exact .inr ⟨tail, rfl, hmore⟩

/-- **Seeking passes the blanks** in front of a character that is none, on whatever line it is. -/
theorem At.seek_text {gap more : List Char} {c : Char} (h : p.At passed later)
    (hahead : p.rest ++ later = gap ++ c :: more) (hgap : Text.AllBlank gap)
    (hc : Text.isBlank c = false) :
    ∃ p' later' tail,
      seek p ((Text.lines later).map .line) = (.text c tail, p', (Text.lines later').map .line) ∧
        p'.At (passed ++ gap) later' ∧ p'.rest = c :: tail ∧ more = tail ++ later' := by
  generalize hlines : Text.lines later = ls
  induction ls generalizing p passed later gap with
  | nil =>
      have hlater := Text.eq_nil_of_lines hlines
      rw [hlater, List.append_nil] at hahead
      obtain ⟨hrest, hpassed⟩ := h.pass hahead
      refine ⟨p.pass gap.length, later, more, ?_, hpassed, hrest, ?_⟩
      · rw [seek_of_text _ hahead hgap hc, hlines]
      · rw [hlater, List.append_nil]
  | cons line ls ih =>
      rcases split_ahead hahead with ⟨gap', rfl, hnext⟩ | ⟨tail, hrest, hmore⟩
      · obtain ⟨rest, rfl, rfl, hline⟩ := Text.lines_eq_cons hlines
        have hblank : Text.AllBlank p.rest := fun d hd => hgap d (List.mem_append_left _ hd)
        have hgap' : Text.AllBlank gap' := fun d hd => hgap d (List.mem_append_right _ hd)
        obtain ⟨p', later', tail, hseek, hat, hrest, hmore⟩ := ih (h.skipLine hline) hnext hgap' rfl
        refine ⟨p', later', tail, ?_, ?_, hrest, hmore⟩
        · rw [List.map_cons, seek_line_of_blank hblank _ hline.ne_nil, hseek]
        · rw [← List.append_assoc]
          exact hat
      · obtain ⟨hleft, hpassed⟩ := h.pass hrest
        refine ⟨p.pass gap.length, later, tail, ?_, hpassed, hleft, hmore⟩
        rw [seek_of_text _ hrest hgap hc, hlines]

/-- **Seeking passes blanks up to the end**, and all lines have been read then. -/
theorem At.seek_end {gap : List Char} (h : p.At passed later) (hahead : p.rest ++ later = gap)
    (hgap : Text.AllBlank gap) :
    ∃ p', seek p ((Text.lines later).map .line) = (.ended, p', []) ∧
      p'.linesRead = Text.lineCount (passed ++ gap) := by
  generalize hlines : Text.lines later = ls
  induction ls generalizing p passed later gap with
  | nil =>
      have hlater := Text.eq_nil_of_lines hlines
      rw [hlater, List.append_nil] at hahead
      refine ⟨_, seek_nil_of_blank (by rwa [hahead]), ?_⟩
      rw [← hahead]
      exact h.linesRead
  | cons line ls ih =>
      obtain ⟨rest, rfl, rfl, hline⟩ := Text.lines_eq_cons hlines
      have hblank : Text.AllBlank p.rest := by
        intro d hd
        exact hgap d (hahead ▸ List.mem_append_left _ hd)
      have hgap' : Text.AllBlank (line ++ rest) := by
        intro d hd
        exact hgap d (hahead ▸ List.mem_append_right _ hd)
      obtain ⟨p', hseek, hlinesRead⟩ := ih (h.skipLine hline) rfl hgap' rfl
      refine ⟨p', ?_, ?_⟩
      · rw [List.map_cons, seek_line_of_blank hblank _ hline.ne_nil, hseek]
      · rw [hlinesRead, ← hahead, rest_startLine, List.append_assoc]

end Place

/-! ### Drawing -/

namespace Reader

/-- **A reader within a text** of a file: what it has passed, and what lies ahead of it. -/
structure At (r : Reader) (file : String) (passed ahead : List Char) : Prop where
  named : r.file = file
  running : r.ended = false
  exists_later : ∃ later, ahead = r.place.rest ++ later ∧
    r.script = (Text.lines later).map .line ∧ r.place.At passed later

/-- The reader over a text has all of it ahead. -/
theorem at_ofText (text file : String) : (ofText text file).At file [] text.toList where
  named := rfl
  running := rfl
  exists_later := ⟨text.toList, rfl, rfl, Place.at_start _⟩

variable {r : Reader} {file : String} {passed gap : List Char}

/-- A lexeme on what is left of a line stands in front of the line feed. -/
theorem isPrefix_firstLine {spelling line later : List Char} (hline : Text.IsLine line later)
    (hlexeme : IsLexeme spelling) (h : spelling <+: line) :
    spelling <+: Text.firstLine (line ++ later) := by
  have hline := hline.firstLine_append
  generalize Text.firstLine (line ++ later) = first at hline ⊢
  rcases hline with rfl | rfl
  · exact h
  · rcases List.prefix_concat_iff.1 h with rfl | hfirst
    · obtain ⟨kind, text, hspells⟩ := hlexeme
      exact absurd (List.mem_append_right _ (List.mem_singleton_self _)) hspells.newline_not_mem
    · exact hfirst

/-- The longest lexeme of the first line is the longest on what is left of it. -/
theorem longest_of_firstLine {spelling line later : List Char} (hline : Text.IsLine line later)
    (h : Longest spelling (Text.firstLine (line ++ later))) : Longest spelling line where
  isPrefix := by
    have hfirst : Text.firstLine (line ++ later) <+: line := by
      rcases hline.firstLine_append with hsame | hended
      · exact ⟨[], by rw [List.append_nil, ← hsame]⟩
      · exact ⟨['\n'], hended.symm⟩
    exact h.isPrefix.trans hfirst
  length_le other hfront hlexeme :=
    h.length_le other (isPrefix_firstLine hline hlexeme hfront) hlexeme

/-- **Where text arrives**: after a gap the reader stands on a character that is no blank, and
draws what is read from the line there. -/
theorem At.exists_arrival {more : List Char} {c : Char}
    (h : r.At file passed (gap ++ c :: more)) (hgap : Text.AllBlank gap)
    (hc : Text.isBlank c = false) :
    ∃ place later tail,
      seek r.place r.script = (.text c tail, place, (Text.lines later).map .line) ∧
        place.At (passed ++ gap) later ∧ place.rest = c :: tail ∧
        Text.IsLine (c :: tail) later ∧ more = tail ++ later := by
  obtain ⟨later, hahead, hscript, hat⟩ := h.exists_later
  obtain ⟨place, later', tail, hseek, hplace, hrest, hmore⟩ := hat.seek_text hahead.symm hgap hc
  have hne : place.rest ≠ [] := by simp [hrest]
  exact ⟨place, later', tail, hscript ▸ hseek, hplace, hrest, hrest ▸ (hplace.current hne).1, hmore⟩

/-- A reader within a text has not ended. -/
theorem At.not_ended {ahead : List Char} (h : r.At file passed ahead) : ¬ r.ended = true := by
  rw [h.running]
  exact Bool.false_ne_true

/-- The line of a reader that has not ended. -/
theorem line_arrive {place : Place} {script : List Reading} (h : r.ended = false) :
    (r.arrive place script).line = place.linesRead := by
  rw [line, arrive, h, if_neg Bool.false_ne_true]

/-- **A lexeme after a gap is drawn** if it is the longest on its line. -/
theorem At.draw_token {kind : Terminal} {text : String} {spelling following : List Char}
    (h : r.At file passed (gap ++ (spelling ++ following))) (hgap : Text.AllBlank gap)
    (hspells : Spells kind text spelling)
    (hlongest : Longest spelling (Text.firstLine (spelling ++ following))) :
    ∃ r', r.draw = (.ok ⟨kind, text, Text.lineAfter (passed ++ gap)⟩, r') ∧
      r'.At file (passed ++ gap ++ spelling) following := by
  obtain ⟨c, rest, rfl, -⟩ := hspells.exists_class
  obtain ⟨place, later, tail, hseek, hplace, hrest, hline, hmore⟩ :=
    h.exists_arrival hgap hspells.isBlank_first
  have hahead : c :: rest ++ following = c :: tail ++ later := congrArg (c :: ·) hmore
  rw [hahead] at hlongest
  have hlongest := longest_of_firstLine hline hlongest
  have hread := Lexeme.read_of_longest hspells hlongest
  obtain ⟨left, hleft⟩ := hlongest.isPrefix
  have hfollowing : following = left ++ later := by
    rw [← hleft, List.append_assoc] at hahead
    exact List.append_cancel_left hahead
  obtain ⟨hpassed, hat⟩ := hplace.pass (hrest.trans hleft.symm)
  refine ⟨r.arrive (place.pass (c :: rest).length) ((Text.lines later).map .line), ?_,
    ⟨h.named, h.running, later, ?_, rfl, hat⟩⟩
  · rw [draw, if_neg h.not_ended, hseek]
    dsimp only
    rw [hread]
    dsimp only
    rw [line_arrive h.running, hplace.linesRead_eq (by simp [hrest]), Lexeme.text_of_spells hspells]
    rfl
  · rw [hfollowing, ← hpassed]
    rfl

/-- **Where no lexeme stands after a gap, a draw reports the character there**, with its line and
column. -/
theorem At.draw_fault {more : List Char} {c : Char} (h : r.At file passed (gap ++ c :: more))
    (hgap : Text.AllBlank gap) (hc : Text.isBlank c = false)
    (hnone : ∀ spelling, spelling <+: Text.firstLine (c :: more) → ¬ IsLexeme spelling) :
    ∃ r', r.draw = (.error (.malformed ((Lexeme.faultAt c).diagnostic
      ⟨file, Text.lineAfter (passed ++ gap), Text.columnAfter (passed ++ gap)⟩)), r') := by
  obtain ⟨place, later, tail, hseek, hplace, hrest, hline, rfl⟩ := h.exists_arrival hgap hc
  have hne : place.rest ≠ [] := by simp [hrest]
  have hread : Lexeme.read c tail = .error (Lexeme.faultAt c) := by
    refine Lexeme.read_of_none ?_
    intro spelling hfront hlexeme
    exact hnone spelling (isPrefix_firstLine hline hlexeme hfront) hlexeme
  refine ⟨r.arrive place ((Text.lines later).map .line), ?_⟩
  rw [draw, if_neg h.not_ended, hseek]
  dsimp only
  rw [hread]
  dsimp only
  rw [location, line_arrive h.running, hplace.linesRead_eq hne, ← hplace.column_eq hne, ← h.named]
  rfl

/-- **After the last blanks the end is drawn**, on the last line, and then for ever. -/
theorem At.draw_end (h : r.At file passed gap) (hgap : Text.AllBlank gap) :
    ∃ r', r.draw = (.ok (.endOfInput (max (Text.lineCount (passed ++ gap)) 1 : Nat)), r') ∧
      r'.draw = r.draw := by
  obtain ⟨later, hahead, hscript, hat⟩ := h.exists_later
  obtain ⟨place, hseek, hlines⟩ := hat.seek_end hahead.symm hgap
  have hdraw : r.draw = (.ok (.endOfInput (max (Text.lineCount (passed ++ gap)) 1 : Nat)),
      { r.arrive place [] with ended := true }) := by
    rw [draw, if_neg h.not_ended, hscript, hseek, ← hlines]
    rfl
  refine ⟨_, hdraw, ?_⟩
  rw [hdraw, draw, if_pos rfl, ← hlines]
  rfl

end Reader

end SccSharp
