import SccSharp.Check
import SccSharp.Proofs.Draining
import SccSharp.Proofs.Position

/-!
# Texts cut into tokens

A text is cut into pieces, one for every token: the gap in front of it and the characters that
spell it. `Cut` says that every piece fits where it stands, and a cut that goes as far as it can
ends where the text is stuck: at its end, or at a character that no lexeme starts at.

Every text has such a cut (`exists_cut`), and a reader over the text gives the tokens of it, then
the sentinel or the fault (`Reader.At.gives_of_cut`). So nothing of the text is lost.

## Main Definitions

* `Piece` — a token with its spelling and the gap in front of it
* `Cut` — pieces that fit where they stand
* `Stuck` — text that no further token can be made of

## Main Statements

* `exists_cut` — every text can be cut
* `Reader.At.gives_of_cut` — the tokens of a cut are drawn
* `drain_eq_cut` — what draining a reader over a text gives
-/

namespace SccSharp

/-! ### Pieces -/

/-- **A piece of a text**: a token, the characters that spell it and the gap in front of them. -/
structure Piece where
  gap : List Char
  spelling : List Char
  token : Token

namespace Piece

/-- The characters of a piece. -/
def chars (p : Piece) : List Char :=
  p.gap ++ p.spelling

/-- The piece that a lexeme makes behind the text passed and a gap. -/
def ofLexeme (passed gap spelling : List Char) (kind : Terminal) (text : String) : Piece :=
  ⟨gap, spelling, ⟨kind, text, Text.lineAfter (passed ++ gap)⟩⟩

/-- **A piece fits** between the text passed and the text that follows: its spelling is the longest
lexeme of its line, and its token has the kind, the text and the line of that lexeme. -/
structure Fits (p : Piece) (passed following : List Char) : Prop where
  blank : Text.AllBlank p.gap
  spells : Spells p.token.kind p.token.text p.spelling
  longest : Longest p.spelling (Text.firstLine (p.spelling ++ following))
  line : p.token.line = Text.lineAfter (passed ++ p.gap)

end Piece

/-- **Pieces that fit where they stand**, behind the text passed and in front of the text left. -/
inductive Cut : List Char → List Piece → List Char → Prop where
  | nil (passed left : List Char) : Cut passed [] left
  | cons {passed left : List Char} {p : Piece} {pieces : List Piece} :
      p.Fits passed (pieces.flatMap Piece.chars ++ left) → Cut (passed ++ p.chars) pieces left →
        Cut passed (p :: pieces) left

/-- **Text that no further token can be made of**: none, or a character that is no blank and that
no lexeme starts at. -/
inductive Stuck : List Char → Prop where
  | ended : Stuck []
  | fault {c : Char} {more : List Char} : Text.isBlank c = false →
      (∀ spelling, spelling <+: Text.firstLine (c :: more) → ¬ IsLexeme spelling) →
        Stuck (c :: more)

/-- Every piece of a cut fits where it stands. -/
theorem Cut.fits {passed left : List Char} {pieces before after : List Piece} {p : Piece}
    (h : Cut passed pieces left) (hsplit : pieces = before ++ p :: after) :
    p.Fits (passed ++ before.flatMap Piece.chars) (after.flatMap Piece.chars ++ left) := by
  induction h generalizing before with
  | nil =>
      have hnil := List.append_eq_nil_iff.1 hsplit.symm
      exact absurd hnil.2 (List.cons_ne_nil _ _)
  | @cons passed left first pieces hfits _ ih =>
      cases before with
      | nil =>
          obtain ⟨rfl, rfl⟩ := List.cons.inj hsplit
          rw [List.flatMap_nil, List.append_nil]
          exact hfits
      | cons first' before =>
          obtain ⟨rfl, htail⟩ := List.cons.inj hsplit
          rw [List.flatMap_cons, ← List.append_assoc]
          exact ih htail

/-! ### Every text can be cut -/

/-- A gap at the front of a text, and what comes after it. -/
theorem exists_gap (text : List Char) :
    ∃ gap rest, text = gap ++ rest ∧ Text.AllBlank gap ∧
      ∀ c more, rest = c :: more → Text.isBlank c = false := by
  refine ⟨text.takeWhile Text.isBlank, text.dropWhile Text.isBlank,
    List.takeWhile_append_dropWhile.symm,
    fun c hc => List.all_eq_true.1 List.all_takeWhile c hc, ?_⟩
  intro c more hrest
  have hhead := List.head?_dropWhile_not Text.isBlank text
  rw [hrest, List.head?_cons] at hhead
  simpa using hhead

/-- **Every text can be cut** up to where it is stuck. -/
theorem exists_cut (passed text : List Char) :
    ∃ pieces gap rest, text = pieces.flatMap Piece.chars ++ (gap ++ rest) ∧
      Cut passed pieces (gap ++ rest) ∧ Text.AllBlank gap ∧ Stuck rest := by
  obtain ⟨gap, rest, rfl, hgap, hfirst⟩ := exists_gap text
  cases rest with
  | nil => exact ⟨[], gap, [], rfl, .nil _ _, hgap, .ended⟩
  | cons c more =>
      have hc := hfirst c more rfl
      rcases exists_longest_or_none (Text.firstLine (c :: more)) with
        ⟨kind, content, spelling, hspells, hlongest⟩ | hnone
      · obtain ⟨following, hfollowing⟩ :=
          hlongest.isPrefix.trans (List.takeWhile_prefix (l := c :: more) _)
        have hshorter : following.length < (gap ++ c :: more).length := by
          obtain ⟨d, others, rfl, -⟩ := hspells.exists_class
          simp only [← hfollowing, List.length_append, List.length_cons]
          omega
        -- what follows the spelling is cut in the same way
        obtain ⟨pieces, gap', rest', rfl, hcut, hgap', hstuck⟩ :=
          exists_cut (passed ++ (gap ++ spelling)) following
        rw [← hfollowing] at hlongest ⊢
        have hfits : (Piece.ofLexeme passed gap spelling kind content).Fits passed
            (pieces.flatMap Piece.chars ++ (gap' ++ rest')) := ⟨hgap, hspells, hlongest, rfl⟩
        refine ⟨_, gap', rest', ?_, .cons hfits hcut, hgap', hstuck⟩
        rw [List.flatMap_cons, Piece.chars, Piece.ofLexeme]
        simp only [List.append_assoc]
      · exact ⟨[], gap, c :: more, rfl, .nil _ _, hgap, .fault hc hnone⟩
termination_by text.length

/-! ### The tokens of a cut are drawn -/

namespace Reader

/-- **Where a text is stuck**, a draw gives the sentinel or reports the character there. -/
def outcomeAt (file : String) (passed : List Char) : List Char → Except SourceFailure Token
  | [] => .ok (.endOfInput (max (Text.lineCount passed) 1 : Nat))
  | c :: _ => .error (.malformed ((Lexeme.faultAt c).diagnostic
      ⟨file, Text.lineAfter passed, Text.columnAfter passed⟩))

variable {r : Reader} {file : String} {passed gap rest : List Char}

/-- A reader gives no further token where its text is stuck. -/
theorem At.gives_of_stuck (h : r.At file passed (gap ++ rest)) (hgap : Text.AllBlank gap)
    (hstuck : Stuck rest) : Feed.Gives r [] (outcomeAt file (passed ++ gap) rest) := by
  cases hstuck with
  | ended =>
      rw [List.append_nil] at h
      obtain ⟨r', hdraw, -⟩ := h.draw_end hgap
      exact .sentinel hdraw rfl
  | fault hc hnone =>
      obtain ⟨r', hdraw⟩ := h.draw_fault hgap hc hnone
      exact .failure hdraw

/-- **The tokens of a cut are drawn**, and then what the text is stuck at. -/
theorem At.gives_of_cut {pieces : List Piece}
    (h : r.At file passed (pieces.flatMap Piece.chars ++ (gap ++ rest)))
    (hcut : Cut passed pieces (gap ++ rest)) (hgap : Text.AllBlank gap) (hstuck : Stuck rest) :
    Feed.Gives r (pieces.map Piece.token)
      (outcomeAt file (passed ++ pieces.flatMap Piece.chars ++ gap) rest) := by
  induction pieces generalizing r passed with
  | nil =>
      rw [List.flatMap_nil, List.append_nil]
      rw [List.flatMap_nil, List.nil_append] at h
      exact h.gives_of_stuck hgap hstuck
  | cons p pieces ih =>
      cases hcut with
      | cons hfits hcut =>
          rw [List.flatMap_cons, Piece.chars, List.append_assoc, List.append_assoc] at h
          obtain ⟨r', hdraw, hat⟩ := h.draw_token hfits.blank hfits.spells hfits.longest
          rw [List.append_assoc passed] at hat
          rw [List.flatMap_cons, ← List.append_assoc passed]
          rw [← hfits.line] at hdraw
          exact .token hdraw hfits.spells.kind_ne_eof (ih hat hcut)

end Reader

/-! ### Maximal munch -/

/-- **A text is cut into its tokens, and nothing of it is lost.** The text is the pieces of its
tokens, each fitting where it stands, then a gap, then what the text is stuck at. If that is its
end, the tokens are followed by the sentinel, which is on the last line that is not empty; and
otherwise by the fault of the character there. -/
theorem drain_eq_cut (text file : String) :
    ∃ pieces gap rest, text.toList = pieces.flatMap Piece.chars ++ (gap ++ rest) ∧
      (∀ before p after, pieces = before ++ p :: after →
        p.Fits (before.flatMap Piece.chars) (after.flatMap Piece.chars ++ (gap ++ rest))) ∧
      Text.AllBlank gap ∧ Stuck rest ∧
      (rest = [] → ∃ last, Feed.drain (Reader.ofText text file) =
        ((pieces.map Piece.token ++
          [Token.endOfInput (max (Text.lineCount text.toList) 1 : Nat)]).toArray, none, last)) ∧
      ∀ c more, rest = c :: more → ∃ last, Feed.drain (Reader.ofText text file) =
        ((pieces.map Piece.token).toArray, some (.malformed ((Lexeme.faultAt c).diagnostic
          ⟨file, Text.lineAfter (pieces.flatMap Piece.chars ++ gap),
            Text.columnAfter (pieces.flatMap Piece.chars ++ gap)⟩)), last) := by
  obtain ⟨pieces, gap, rest, htext, hcut, hgap, hstuck⟩ := exists_cut [] text.toList
  have hat := Reader.at_ofText text file
  rw [htext] at hat
  have hgives := hat.gives_of_cut hcut hgap hstuck
  refine ⟨pieces, gap, rest, htext, fun _ _ _ hsplit => hcut.fits hsplit, hgap, hstuck, ?_, ?_⟩
  · rintro rfl
    rw [htext, List.append_nil]
    exact hgives.drain_ok
  · rintro c more rfl
    exact hgives.drain_error

end SccSharp
