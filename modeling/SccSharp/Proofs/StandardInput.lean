import SccSharp.Proofs.Checks

/-!
# The standard input, line by line

A parse says with its end how much of its source it has read: up to the line of the token it
rejects, or of the text it cannot cut into tokens, and otherwise all of it. Nothing behind these
lines makes a difference.

So several checks of the standard input share it out among them. Each one gets the lines that the
one before it has not read, as a text of its own, with its lines counted from one. What ends a line
may be line feeds alone or all three kinds of line ends; the input may arrive in any chunks; and the
call stacks may be any that the parses fit.

## Main Definitions

* `lastLineRead` — the line a parse has read up to, told from its end
* `ReadsUpTo` — a parse that has read some lines and depends on no others
* `Command.leftOver` — what a check leaves of a text
* `Command.turns` — what each of several checks finds

## Main Statements

* `Command.standardInput_shared_out` — how much a parse reads, and how the standard input is split
-/

namespace SccSharp

/-! ### Lines of a text -/

namespace Text

/-- The lines of what is left behind some lines are the lines left. -/
theorem lines_flatten_drop (text : List Char) (n : Nat) :
    lines ((lines text).drop n).flatten = (lines text).drop n := by
  induction n generalizing text with
  | zero => rw [List.drop_zero, flatten_lines]
  | succ n ih =>
      cases hlines : lines text with
      | nil => rfl
      | cons line more =>
          obtain ⟨later, -, rfl, -⟩ := lines_eq_cons hlines
          exact ih later

end Text

/-! ### How much has been read -/

/-- **The line a parse has read up to**, told from its end; none if it has read all of its
source. -/
def lastLineRead : Option (Stop SourceFailure) → Option Int
  | some (.syntaxError e) => if e.found.kind = .eof then none else some e.line
  | some (.tooDeep e) => if e.token.kind = .eof then none else some e.token.line
  | some (.sourceFailed (.malformed report)) => some report.location.line
  | _ => none

/-- **What the end of a parse tells of the lines read**: it is on the last of them, or the source
has ended, or failed. -/
theorem Reader.StandsAt.lastLineRead_cases {r : Reader} {stop : Option (Stop SourceFailure)}
    (h : r.StandsAt stop) :
    (∃ n, lastLineRead stop = some n ∧ r.ended = false ∧ (r.place.linesRead : Int) = n) ∨
      lastLineRead stop = none ∧
        (r.ended = true ∨ ∃ reason, stop = some (.sourceFailed (.unreadable reason))) := by
  have hcount (hended : r.ended = false) : r.line = r.place.linesRead := by
    rw [line, hended, if_neg Bool.false_ne_true]
  have hshown {t : Token} (hshows : r.Shows t)
      (ht : lastLineRead stop = if t.kind = .eof then none else some t.line) :
      (∃ n, lastLineRead stop = some n ∧ r.ended = false ∧ (r.place.linesRead : Int) = n) ∨
        lastLineRead stop = none ∧
          (r.ended = true ∨ ∃ reason, stop = some (.sourceFailed (.unreadable reason))) := by
    split at ht
    · next hkind => exact .inr ⟨ht, .inl (hshows.ended.2 hkind)⟩
    · next hkind =>
        have hended : r.ended = false := eq_false_of_ne_true fun h => hkind (hshows.ended.1 h)
        exact .inl ⟨_, ht, hended, by rw [hshows.line, hcount hended]⟩
  cases stop with
  | none => exact .inr ⟨rfl, .inl h⟩
  | some stop =>
      cases stop with
      | syntaxError e => exact hshown h rfl
      | tooDeep e => exact hshown h rfl
      | misused m => exact h.elim
      | sourceFailed failure =>
          cases failure with
          | unreadable reason => exact .inr ⟨rfl, .inr ⟨reason, rfl⟩⟩
          | malformed report =>
              obtain ⟨hended, hreport⟩ := h
              exact .inl ⟨_, rfl, hended, by rw [hreport, hcount hended]⟩

/-- **A parse that reads up to a line**: it has taken so many lines, the rest is as it was, and
whatever came behind them, the parse would be the same. -/
def ReadsUpTo (limit : Option Nat) (file : String) (script : List Reading) (start : Rule)
    (n : Int) : Prop :=
  let parse := recorded limit { file := file, script := script : Reader } start
  ∃ read : List Reading, (∀ reading ∈ read, reading.isLine = true) ∧ (read.length : Int) = n ∧
    script = read ++ parse.2.feed.script ∧
    ∀ other, recorded limit { file := file, script := read ++ other : Reader } start =
      (parse.1, parse.2.withScript other)

section

variable {limit : Option Nat} {file : String} {script : List Reading} {start : Rule}

/-- **A parse reads up to the line its end tells of.** -/
theorem readsUpTo_of_lastLineRead {n : Int}
    (h : lastLineRead (recorded limit { file := file, script := script : Reader } start).1 =
      some n) : ReadsUpTo limit file script start n := by
  have hread : ∀ reason, (recorded limit { file := file, script := script : Reader } start).1 ≠
      some (.sourceFailed (.unreadable reason)) := by
    intro reason hstop
    rw [hstop] at h
    cases h
  rcases (recorded_standsAt limit _ start).lastLineRead_cases with
    ⟨last, hlast, hended, hcount⟩ | ⟨hnone, -⟩
  · obtain ⟨read, hadvances, hothers⟩ := recorded_before_end hended hread
    refine ⟨read, hadvances.lines, ?_, hadvances.script, hothers⟩
    rw [← Option.some.inj (hlast.symm.trans h), ← hcount, hadvances.count, Nat.zero_add]
  · cases hnone.symm.trans h

/-- **A parse whose end tells of no line** has read the whole source. -/
theorem exhausts_of_lastLineRead
    (h : lastLineRead (recorded limit { file := file, script := script : Reader } start).1 = none)
    (hread : ∀ reason, (recorded limit { file := file, script := script : Reader } start).1 ≠
      some (.sourceFailed (.unreadable reason))) :
    Reading.Exhausts script
      (recorded limit { file := file, script := script : Reader } start).2.feed.script := by
  rcases (recorded_standsAt limit { file := file, script := script : Reader }
    start).lastLineRead_cases with ⟨last, hlast, -⟩ | ⟨-, hended | ⟨reason, hfailed⟩⟩
  · cases h.symm.trans hlast
  · exact recorded_to_end rfl hended
  · exact absurd hfailed (hread reason)

end

/-! ### What a check leaves of a text -/

/-- Nothing is left of lines that are not empty once they have been read to the end. -/
theorem Reading.Exhausts.left_eq_nil {script left : List Reading} (h : Exhausts script left)
    (hempty : .line [] ∉ script) : left = [] := by
  obtain ⟨lines, -, ⟨-, hleft⟩ | rfl⟩ := h
  · exact hleft
  · exact absurd (List.mem_append_right _ List.mem_cons_self) hempty

/-- No line of a text is the empty one that stands for its end. -/
theorem line_nil_not_mem_ofText (text : List Char) : .line [] ∉ Reading.ofText text := by
  intro hmem
  obtain ⟨line, hline, hnil⟩ := List.mem_map.1 hmem
  cases hnil
  exact Text.ne_nil_of_mem_lines hline rfl

/-- The lines behind some lines of a text that has been read are read as they are. -/
theorem Text.Newlines.read_flatten_drop (newlines : Newlines) (text : List Char) (n : Nat) :
    newlines.read ((lines (newlines.read text)).drop n).flatten =
      ((lines (newlines.read text)).drop n).flatten := by
  cases newlines with
  | lineFeed => rfl
  | universal =>
      refine unifyNewlines_of_not_mem fun hmem => ?_
      -- a carriage return among them would be one of the text, whose line ends have been unified
      obtain ⟨line, hline, hmem⟩ := List.mem_flatten.1 hmem
      refine not_mem_unifyNewlines text ?_
      rw [← flatten_lines (unifyNewlines text)]
      exact List.mem_flatten.2 ⟨line, List.mem_of_mem_drop hline, hmem⟩

namespace Command

/-! ### Turns -/

section

variable (newlines : Text.Newlines) (start : Rule)

/-- The readings of a text on the standard input. -/
def inputReadings (text : List Char) : List Reading :=
  Reading.ofBytes (Text.Utf8.encode text) newlines

/-- The reader over a text on the standard input. -/
def inputReader (text : List Char) : Reader :=
  { file := shownName standardInput, script := inputReadings newlines text }

/-- **What a check leaves of the standard input**: the lines behind those that it has read. -/
def leftOver (text : List Char) : List Char :=
  match lastLineRead (recorded none (inputReader newlines text) start).1 with
  | none => []
  | some n => ((Text.lines (newlines.read text)).drop n.toNat).flatten

/-- **What each of several files finds on the standard input**: the text itself, and behind a check
of the standard input what that one leaves. -/
def turns : List String → List Char → List (String × List Char)
  | [], _ => []
  | path :: paths, text =>
      (path, text) ::
        turns paths (if path = standardInput then leftOver newlines start text else text)

/-- The text of the lines behind some lines is read as those lines. -/
theorem inputReadings_drop (text : List Char) (n : Nat) :
    inputReadings newlines ((Text.lines (newlines.read text)).drop n).flatten =
      (inputReadings newlines text).drop n := by
  rw [inputReadings, inputReadings, Reading.ofBytes_encode, Reading.ofBytes_encode,
    newlines.read_flatten_drop, Reading.ofText, Text.lines_flatten_drop, List.map_drop,
    Reading.ofText]

/-- **The check of the standard input leaves** just that, if the parse fits its call stack. -/
theorem stdin_checkFile_standardInput {stack : CallStack} {request : CheckRequest} {verbose : Bool}
    {files : Files} {text : List Char}
    (hfits : Fits stack (inputReader newlines text) request.start) :
    (checkFile stack request verbose files standardInput (inputReadings newlines text)).stdin =
      inputReadings newlines (leftOver newlines request.start text) := by
  have hleft : (checkFile stack request verbose files standardInput
      (inputReadings newlines text)).stdin =
      (recordedOn stack (inputReader newlines text) request.start).2.feed.script := by
    rw [checkFile_eq]
    rfl
  have hlines : ∀ reading ∈ (inputReader newlines text).script, reading.isLine = true :=
    fun reading => isLine_of_mem_ofBytes
  have hread := recordedOn_of_lines (.limited none) request.start hlines
  rw [hleft, recordedOn_of_fits hfits, leftOver]
  cases hline : lastLineRead (recorded none (inputReader newlines text) request.start).1 with
  | none =>
      have hempty : .line [] ∉ (inputReader newlines text).script := by
        rw [inputReader, inputReadings, Reading.ofBytes_encode]
        exact line_nil_not_mem_ofText _
      refine ((exhausts_of_lastLineRead hline hread).left_eq_nil hempty).trans ?_
      cases newlines <;> rfl
  | some n =>
      obtain ⟨read, -, rfl, hsplit, -⟩ := readsUpTo_of_lastLineRead hline
      dsimp only
      rw [inputReadings_drop, Int.toNat_natCast]
      exact List.drop_left.symm.trans (congrArg (List.drop read.length) hsplit.symm)

/-- **The checks of several files** are those of each on what it finds. -/
theorem singles_eq_turns {stack : CallStack} {request : CheckRequest} {verbose : Bool}
    {files : Files} {paths : List String} {text : List Char}
    (hfits : ∀ turn ∈ turns newlines request.start paths text, turn.1 = standardInput →
      Fits stack (inputReader newlines turn.2) request.start) :
    singles stack request verbose files paths (inputReadings newlines text) =
      (turns newlines request.start paths text).map fun turn =>
        checkFile stack request verbose files turn.1 (inputReadings newlines turn.2) := by
  induction paths generalizing text with
  | nil => rfl
  | cons path paths ih =>
      obtain ⟨hfirst, hrest⟩ := List.forall_mem_cons.1 hfits
      rw [singles, turns, List.map_cons]
      split
      · next hpath =>
          rw [if_pos hpath] at hrest
          subst hpath
          rw [stdin_checkFile_standardInput newlines (hfirst rfl), ih hrest]
      · next hpath =>
          rw [if_neg hpath] at hrest
          rw [stdin_checkFile hpath, ih hrest]

/-- Nothing is left of the standard input by a check that has met its end. -/
theorem leftOver_of_ended {text : List Char}
    (h : (recorded none (inputReader newlines text) start).2.feed.ended = true) :
    leftOver newlines start text = [] := by
  rcases (recorded_standsAt none (inputReader newlines text) start).lastLineRead_cases with
    ⟨_, -, hended, -⟩ | ⟨hnone, -⟩
  · exact absurd (h.symm.trans hended) Bool.noConfusion
  · rw [leftOver, hnone]

/-- Nothing is left of nothing. -/
theorem leftOver_nil : leftOver newlines start [] = [] := by
  have hnothing : newlines.read [] = [] := by cases newlines <;> rfl
  rw [leftOver, hnothing]
  split
  · rfl
  · exact congrArg List.flatten List.drop_nil

end

/-- **Parses read no further than they must, and share the standard input out among them.**

* A parse that rejects a token in front of the end has read the lines up to that token, and one that
  meets malformed text the lines up to that text. Nothing behind these lines makes a difference
  (`ReadsUpTo`). A parse that succeeds, or fails at the end, has read its whole source.
* Let the bytes of a text arrive on the standard input, in any chunks, and let its parses fit their
  call stack. In a check of several files each one is checked as if by itself, and the standard
  input as the text that the check of it before has left: the lines that this one has not read,
  which are none once it has met the end. -/
theorem standardInput_shared_out :
    (∀ (limit : Option Nat) (file : String) (script : List Reading) (start : Rule),
      let parse := recorded limit { file := file, script := script : Reader } start
      (∀ e, parse.1 = some (.syntaxError e) → e.found.kind ≠ .eof →
        ReadsUpTo limit file script start e.line) ∧
      (∀ report, parse.1 = some (.sourceFailed (.malformed report)) →
        ReadsUpTo limit file script start report.location.line) ∧
      ((parse.1 = none ∨ ∃ e, parse.1 = some (.syntaxError e) ∧ e.found.kind = .eof) →
        Reading.Exhausts script parse.2.feed.script)) ∧
    (∀ (callStacks : CallStacks) (newlines : Text.Newlines) (verbose : Bool)
        (request : CheckRequest) (extras : List String) (files : Files) (text : List Char)
        (chunks : List (List UInt8)),
      let stack := callStacks request.style verbose
      let single (turn : String × List Char) :=
        checkFile stack request verbose files turn.1 (inputReadings newlines turn.2)
      let reports := (turns newlines request.start request.files text).map single
      chunks.flatten = Text.Utf8.encode text →
      (∀ turn ∈ turns newlines request.start request.files text, turn.1 = standardInput →
        Fits stack (inputReader newlines turn.2) request.start) →
      run ⟨verbose, .check request, extras⟩ files (Reading.ofChunks newlines chunks) callStacks =
        (combined (inputReadings newlines text) (reached reports)).noted
          (runningNote verbose "check") ∧
      ((∀ path ∈ request.files, path ≠ standardInput → files.IsText path) →
        reached reports = reports) ∧
      (∀ turn : String × List Char,
        run ⟨verbose, .check { request with files := [turn.1] }, extras⟩ files
            (inputReadings newlines turn.2) callStacks =
          (single turn).noted (runningNote verbose "check"))) ∧
    (∀ (newlines : Text.Newlines) (start : Rule) (text : List Char),
      ((recorded none (inputReader newlines text) start).2.feed.ended = true →
        leftOver newlines start text = []) ∧ leftOver newlines start [] = []) := by
  refine ⟨fun limit file script start => ⟨?_, ?_, ?_⟩, ?_, fun newlines start text => ⟨?_, ?_⟩⟩
  · intro e hstop hkind
    exact readsUpTo_of_lastLineRead (by rw [hstop]; exact if_neg hkind)
  · intro report hstop
    exact readsUpTo_of_lastLineRead (by rw [hstop]; rfl)
  · intro hstop
    refine exhausts_of_lastLineRead ?_ ?_
    · rcases hstop with hnone | ⟨e, hrejected, hkind⟩
      · rw [hnone]
        rfl
      · rw [hrejected]
        exact if_pos hkind
    · rcases hstop with hnone | ⟨e, hrejected, -⟩
      · rw [hnone]
        exact fun _ h => nomatch h
      · rw [hrejected]
        exact fun _ h => nomatch h
  · intro callStacks newlines verbose request extras files text chunks stack single reports hchunks
      hfits
    have hstdin : Reading.ofChunks newlines chunks = inputReadings newlines text := by
      rw [Reading.ofChunks_of_flatten newlines hchunks, inputReadings, Reading.ofBytes_encode]
    have hsingles : singles stack request verbose files request.files
        (inputReadings newlines text) = reports := singles_eq_turns newlines hfits
    refine ⟨?_, ?_, ?_⟩
    · rw [hstdin, ← hsingles]
      exact run_check callStacks verbose extras files (inputReadings newlines text) request
    · intro hfiles
      rw [← hsingles]
      exact reached_of_texts stack request verbose hfiles fun reading => isLine_of_mem_ofBytes
    · intro turn
      exact run_single callStacks verbose extras files (inputReadings newlines turn.2) request
        turn.1
  · exact leftOver_of_ended newlines start
  · exact leftOver_nil newlines start

/-- Where line feeds alone end lines, a carriage return does not. So a sign that no program starts
with, behind one on the first line of two, leaves the second line to the next check. A character
that starts no lexeme is met on its line, and an empty text is read to its end. -/
theorem standardInput_shared_out_straySign :
    let text := "\r=\n=".toList
    let input := inputReadings .lineFeed
    let request : CheckRequest := { files := ["-", "-"] }
    let bytes := Text.Utf8.encode text
    ReadsUpTo none "<stdin>" (input text) .statementPart 1 ∧
      ReadsUpTo none "<stdin>" (input "#".toList) .statementPart 1 ∧
      Reading.Exhausts (input []) [] ∧ leftOver .lineFeed .statementPart [] = [] ∧
      turns .lineFeed .statementPart request.files text = [("-", text), ("-", "=".toList)] ∧
      run ⟨false, .check request, []⟩ (fun _ => .error .missing)
          (Reading.ofChunks .lineFeed [bytes.take 1, bytes.drop 1]) =
        combined (input text) ([("-", text), ("-", "=".toList)].map fun turn =>
          checkFile (.standard true false) request false (fun _ => .error .missing) turn.1
            (input turn.2)) := by
  intro text input request bytes
  obtain ⟨hparses, hchecks, hends⟩ := standardInput_shared_out
  let stack := CallStack.standard true false
  -- the sign is rejected on either line, and so is the end of an empty text
  have hfirst : Feed.draw (inputReader .lineFeed text) = (.ok ⟨.equals, "=", 1⟩, _) := rfl
  have hsecond : Feed.draw (inputReader .lineFeed "=".toList) = (.ok ⟨.equals, "=", 1⟩, _) := rfl
  have hlast : Feed.draw (inputReader .lineFeed []) = (.ok (.endOfInput 1), _) := rfl
  have hsign := recordedOn_of_ne_begin (.limited none) hfirst (by decide) rfl rfl rfl
  have hempty := recordedOn_of_ne_begin (.limited none) hlast (by decide) rfl rfl rfl
  have hcharacter : recorded none (inputReader .lineFeed "#".toList) .statementPart =
      (some (.sourceFailed (.malformed _)), _) := parse_of_draw_error .statementPart (by rfl)
  have hleft : leftOver .lineFeed .statementPart text = "=".toList := by
    rw [leftOver, show (recorded none (inputReader .lineFeed text) .statementPart).1 = _ from
      congrArg Prod.fst hsign]
    rfl
  have hturns : turns .lineFeed .statementPart request.files text =
      [("-", text), ("-", "=".toList)] := by
    rw [← hleft]
    rfl
  have hmet : Reading.Exhausts (input []) [] := by
    have hwhole : Reading.Exhausts (input [])
        (recorded none (inputReader .lineFeed []) .statementPart).2.feed.script :=
      (hparses _ _ _ _).2.2 (.inr ⟨_, congrArg Prod.fst hempty, rfl⟩)
    rwa [show recorded none (inputReader .lineFeed []) .statementPart = _ from hempty] at hwhole
  refine ⟨?_, ?_, hmet, ?_, hturns, ?_⟩
  · exact (hparses _ _ _ _).1 _ (congrArg Prod.fst hsign) (by decide)
  · exact (hparses _ _ _ _).2.1 _ (congrArg Prod.fst hcharacter)
  · exact (hends .lineFeed .statementPart []).1 (congrArg (·.2.feed.ended) hempty)
  · have hchunks : [bytes.take 1, bytes.drop 1].flatten = Text.Utf8.encode text := rfl
    have hall : ∀ turn ∈ turns .lineFeed request.start request.files text,
        turn.1 = standardInput → Fits stack (inputReader .lineFeed turn.2) request.start := by
      intro turn hturn _
      rw [show turns .lineFeed request.start request.files text = _ from hturns] at hturn
      rcases List.mem_cons.1 hturn with rfl | hturn
      · exact fits_of_ne_begin hfirst (by decide) rfl rfl rfl
      · rw [List.mem_singleton.1 hturn]
        exact fits_of_ne_begin hsecond (by decide) rfl rfl rfl
    obtain ⟨hreport, hreached, -⟩ := hchecks .standard .lineFeed false request []
      (fun _ => .error .missing) text _ hchunks hall
    refine (hreport.trans (Report.noted_empty _)).trans ?_
    rw [hreached (fun path _ _ bytes hbytes => nomatch hbytes), ← hturns]
    rfl

end Command

end SccSharp
