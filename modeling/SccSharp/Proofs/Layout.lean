import SccSharp.Proofs.Cutting

/-!
# Layouts

Tokens can be printed in many ways: in front of each of them and after the last one stands a gap,
and the gap may be empty unless the two tokens around it would merge. Reading what has been printed
gives back the tokens, whatever the layout.

All of it rests on where a lexeme can go on. A longer lexeme with the same beginning goes on with a
character that only some kinds of tokens allow (`Spells.goesOn`); no blank is such a character, and
the first character of another token is one only if the two merge. So each spelling printed is the
longest lexeme where it stands, and the tokens printed are a cut of the text.

## Main Definitions

* `GoesOn` — the characters that a token of some kind may go on with
* `Printed` — a token with its spelling and the gap printed in front of it
* `Printed.Merge` — two tokens that have to be set apart
* `Layout` — printed tokens, set apart where they have to be

## Main Statements

* `longest_of_not_goesOn` — a spelling that cannot go on is the longest lexeme
* `Layout.tokensOf_text` — reading undoes printing
-/

namespace SccSharp

/-! ### Where a lexeme goes on -/

/-- A kind whose tokens are words: the identifier or a keyword. -/
def Terminal.IsWord (kind : Terminal) : Prop :=
  kind = .identifier ∨ ∃ text, (text, kind) ∈ keywords

/-- The kind of a word is one of words. -/
theorem Terminal.isWord_ofWord (text : String) : (ofWord text).IsWord := by
  by_cases hkeyword : ∃ kind, (text, kind) ∈ keywords
  · obtain ⟨kind, hmem⟩ := hkeyword
    rw [ofWord_of_mem hmem]
    exact .inr ⟨text, hmem⟩
  · exact .inl (ofWord_of_not_mem (not_exists.1 hkeyword))

/-- A parenthesis is no word. -/
theorem Terminal.not_isWord_leftParenthesis : ¬ IsWord .leftParenthesis := by
  have hkeywords : ∀ entry ∈ keywords, entry.2 ≠ .leftParenthesis := by decide
  rintro (hidentifier | ⟨text, hmem⟩)
  · cases hidentifier
  · exact hkeywords _ hmem rfl

/-- **The characters that a token of some kind may go on with**, so that a longer lexeme is read in
its place. -/
inductive GoesOn (kind : Terminal) (d : Char) : Prop where
  | word : kind.IsWord → Lexeme.isWordCharacter d = true → GoesOn kind d
  | number : kind = .numberConstant → Text.isDigit d = true ∨ d = '.' → GoesOn kind d
  | operator : kind = .greaterThan ∨ kind = .lessThan ∨ kind = .divide → d = '=' → GoesOn kind d

/-- A number is made of digits and a point. -/
theorem IsNumber.isDigit_or_point {spelling : List Char} (h : IsNumber spelling) :
    ∀ d ∈ spelling, Text.isDigit d = true ∨ d = '.' := by
  intro d hd
  cases h with
  | whole hdigits => exact .inl (hdigits.2 d hd)
  | decimal hdigits hfraction =>
      rcases List.mem_append.1 hd with hd | hd
      · exact .inl (hdigits.2 d hd)
      · rcases List.mem_cons.1 hd with hd | hd
        · exact .inr hd
        · exact .inl (hfraction.2 d hd)

/-- Of the operators that start another one, each goes on with an equals sign. -/
theorem operator_goesOn {kind kind' : Terminal} {text text' : String} {d : Char} {more : List Char}
    (h : (text, kind) ∈ Terminal.operators) (h' : (text', kind') ∈ Terminal.operators)
    (hlonger : text'.toList = text.toList ++ d :: more) :
    (kind = .greaterThan ∨ kind = .lessThan ∨ kind = .divide) ∧ d = '=' := by
  have hpairs : ∀ entry ∈ Terminal.operators, ∀ longer ∈ Terminal.operators,
      entry.1.toList <+: longer.1.toList → longer.1.toList.drop entry.1.toList.length = [] ∨
        (entry.2 = .greaterThan ∨ entry.2 = .lessThan ∨ entry.2 = .divide) ∧
          (longer.1.toList.drop entry.1.toList.length).head? = some '=' := by decide
  have hpair := hpairs _ h _ h' ⟨d :: more, hlonger.symm⟩
  rw [hlonger, List.drop_left] at hpair
  rcases hpair with hnil | ⟨hkind, hhead⟩
  · cases hnil
  · exact ⟨hkind, Option.some.inj hhead⟩

/-- **A longer lexeme goes on** with a character that the kind of the shorter one allows. -/
theorem Spells.goesOn {kind kind' : Terminal} {text text' : String} {spelling more : List Char}
    {d : Char} (h : Spells kind text spelling) (h' : Spells kind' text' (spelling ++ d :: more)) :
    GoesOn kind d := by
  obtain ⟨c, rest, rfl, hclass⟩ := h.exists_class
  have hd : d ∈ c :: (rest ++ d :: more) := by simp
  -- the longer lexeme is read in the way that the first character of both decides
  have hread : Lexeme.read c (rest ++ d :: more) = .ok ⟨kind', c :: (rest ++ d :: more)⟩ :=
    Lexeme.read_of_longest h' (Longest.self _)
  unfold Lexeme.read at hread
  cases hclass with
  | word halpha _ _ hkind =>
      rw [if_pos halpha] at hread
      have hspelling : Lexeme.wordSpelling _ = c :: (rest ++ d :: more) :=
        congrArg Lexeme.spelling (Except.ok.inj hread)
      rw [← hspelling] at hd
      have hcharacter := List.all_eq_true.1 List.all_takeWhile d hd
      exact .word (hkind ▸ Terminal.isWord_ofWord text) hcharacter
  | number halpha hdigit _ _ hkind =>
      rw [if_neg (by simp [halpha]), if_pos hdigit] at hread
      have hspelling : Lexeme.numberSpelling _ = c :: (rest ++ d :: more) :=
        congrArg Lexeme.spelling (Except.ok.inj hread)
      rw [← hspelling] at hd
      exact .number hkind ((Lexeme.isNumber_numberSpelling _ hdigit).isDigit_or_point d hd)
  | string hquote hbody hall =>
      have halpha : c.isAlpha = false := by rw [hquote]; decide
      have hdigit : Text.isDigit c = false := by rw [hquote]; decide
      rw [if_neg (by simp [halpha]), if_neg (by simp [hdigit]), if_pos hquote, hbody,
        List.append_assoc, List.singleton_append, Lexeme.stringSpelling?_append _ hall] at hread
      have hspelling := congrArg Lexeme.spelling (Except.ok.inj hread)
      have hlength := congrArg List.length hspelling
      simp at hlength
  | operator halpha hdigit hquote htext hmem =>
      rw [if_neg (by simp [halpha]), if_neg (by simp [hdigit]), if_neg hquote] at hread
      split at hread
      · next lexeme hoperator =>
          cases hread
          have hlonger : (String.ofList (c :: (rest ++ d :: more))).toList =
              text.toList ++ d :: more := by
            rw [String.toList_ofList, htext]
            rfl
          have hmem' := Lexeme.mem_of_operator? hoperator
          obtain ⟨hkind, hequals⟩ := operator_goesOn hmem hmem' hlonger
          exact .operator hkind hequals
      · cases hread

/-- **A spelling that cannot go on is the longest lexeme** on its line. -/
theorem longest_of_not_goesOn {kind : Terminal} {text : String} {spelling following : List Char}
    (h : Spells kind text spelling)
    (hstop : ∀ d more, following = d :: more → ¬ GoesOn kind d) :
    Longest spelling (Text.firstLine (spelling ++ following)) := by
  have hall : ∀ c ∈ spelling, (c != '\n') = true := by
    intro c hc
    rw [bne_iff_ne]
    rintro rfl
    exact h.newline_not_mem hc
  have hfirst : Text.firstLine (spelling ++ following) = spelling ++ Text.firstLine following :=
    List.takeWhile_append_of_pos hall
  rw [hfirst]
  refine ⟨List.prefix_append _ _, ?_⟩
  rintro other hother ⟨kind', text', hspells⟩
  rcases List.prefix_or_prefix_of_prefix hother (List.prefix_append _ _) with
    hshorter | ⟨tail, rfl⟩
  · exact hshorter.length_le
  · cases tail with
    | nil => simp
    | cons d tail =>
        -- a longer lexeme would go on with the first character that follows
        have htail := (List.prefix_append_right_inj spelling).1 hother
        obtain ⟨left, hleft⟩ := htail.trans (List.takeWhile_prefix _)
        exact absurd (h.goesOn hspells) (hstop d _ hleft.symm)

/-- No token goes on with a blank. -/
theorem GoesOn.isBlank_eq_false {kind : Terminal} {d : Char} (h : GoesOn kind d) :
    Text.isBlank d = false := by
  cases h with
  | word _ hcharacter =>
      simp only [Lexeme.isWordCharacter, Char.isAlphanum, Bool.or_eq_true, beq_iff_eq]
        at hcharacter
      rcases hcharacter with (halpha | hdigit) | rfl
      · have hletter := Text.isAlpha_cases halpha
        exact Text.isBlank_eq_false_of_ascii (by omega) (by omega)
      · exact Text.isBlank_eq_false_of_isDigit (Text.isDigit_of_ascii hdigit)
      · decide
  | number _ hdigit =>
      rcases hdigit with hdigit | rfl
      · exact Text.isBlank_eq_false_of_isDigit hdigit
      · decide
  | operator _ hequals =>
      rw [hequals]
      decide

/-! ### Printed tokens -/

/-- **A printed token**: its spelling, and the gap printed in front of it. -/
structure Printed where
  gap : List Char
  kind : Terminal
  text : String
  spelling : List Char
  blank : Text.AllBlank gap
  spells : Spells kind text spelling

namespace Printed

/-- What is printed for a token. -/
def chars (p : Printed) : List Char :=
  p.gap ++ p.spelling

/-- **Two tokens that merge** unless they are set apart: a word in front of an ASCII letter or
digit, two numbers, and `>`, `<` or `/` in front of `=`. -/
inductive Merge (left right : Printed) : Prop where
  | word {c : Char} : left.kind.IsWord → right.spelling.head? = some c → c.isAlphanum = true →
      Merge left right
  | numbers : left.kind = .numberConstant → right.kind = .numberConstant → Merge left right
  | operators : left.kind = .greaterThan ∨ left.kind = .lessThan ∨ left.kind = .divide →
      right.kind = .equals → Merge left right

/-- **A token goes on with another one only if the two merge.** -/
theorem merge_of_goesOn {left right : Printed} {d : Char} {more : List Char}
    (h : GoesOn left.kind d) (hright : right.spelling = d :: more) : Merge left right := by
  have hspells := right.spells
  rw [hright] at hspells
  obtain ⟨first, rest, hsplit, hclass⟩ := hspells.exists_class
  obtain ⟨rfl, rfl⟩ := List.cons.inj hsplit
  have hoperators : ∀ entry ∈ Terminal.operators, entry.1.toList.head? ≠ some '_' ∧
      entry.1.toList.head? ≠ some '.' ∧ (entry.1.toList.head? = some '=' → entry.2 = .equals) := by
    decide
  cases h with
  | word hword hcharacter =>
      refine .word hword (by rw [hright, List.head?_cons]) ?_
      simp only [Lexeme.isWordCharacter, Bool.or_eq_true, beq_iff_eq] at hcharacter
      rcases hcharacter with halphanum | rfl
      · exact halphanum
      -- no token starts with an underscore
      · cases hclass with
        | word halpha => exact absurd halpha (by decide)
        | number _ hdigit => exact absurd hdigit (by decide)
        | string hquote => exact absurd hquote (by decide)
        | operator _ _ _ htext hmem => exact absurd (by rw [htext]; rfl) (hoperators _ hmem).1
  | number hkind hdigit =>
      cases hclass with
      | word halpha =>
          rcases hdigit with hdigit | rfl
          · rw [Text.isDigit_eq_false_of_isAlpha halpha] at hdigit
            cases hdigit
          · exact absurd halpha (by decide)
      | number _ _ _ _ hkind' => exact .numbers hkind hkind'
      | string hquote =>
          subst hquote
          exact absurd hdigit (by decide)
      | operator _ hnone _ htext hmem =>
          rcases hdigit with hdigit | rfl
          · rw [hnone] at hdigit
            cases hdigit
          · exact absurd (by rw [htext]; rfl) (hoperators _ hmem).2.1
  | operator hkind hequals =>
      subst hequals
      cases hclass with
      | word halpha => exact absurd halpha (by decide)
      | number _ hdigit => exact absurd hdigit (by decide)
      | string hquote => exact absurd hquote (by decide)
      | operator _ _ _ htext hmem =>
          exact .operators hkind ((hoperators _ hmem).2.2 (by rw [htext]; rfl))

/-- The tokens printed, each on the line that it stands on behind the text passed. -/
def tokens (passed : List Char) : List Printed → List Token
  | [] => []
  | p :: more =>
      ⟨p.kind, p.text, Text.lineAfter (passed ++ p.gap)⟩ :: tokens (passed ++ p.chars) more

/-- The pieces that printed tokens make behind the text passed. -/
def pieces (passed : List Char) : List Printed → List Piece
  | [] => []
  | p :: more =>
      .ofLexeme passed p.gap p.spelling p.kind p.text :: pieces (passed ++ p.chars) more

/-- The pieces carry the tokens. -/
theorem map_token_pieces (passed : List Char) (printed : List Printed) :
    (pieces passed printed).map Piece.token = tokens passed printed := by
  induction printed generalizing passed with
  | nil => rfl
  | cons p more ih => exact congrArg (_ :: ·) (ih _)

/-- The pieces are what has been printed. -/
theorem flatMap_chars_pieces (passed : List Char) (printed : List Printed) :
    (pieces passed printed).flatMap Piece.chars = printed.flatMap chars := by
  induction printed generalizing passed with
  | nil => rfl
  | cons p more ih =>
      rw [pieces, List.flatMap_cons, List.flatMap_cons, ih]
      rfl

/-- **Printed tokens are set apart** where they have to be: no gap is empty between two that
merge. -/
inductive Apart : List Printed → Prop where
  | nil : Apart []
  | single (p : Printed) : Apart [p]
  | cons {left right : Printed} {more : List Printed} :
      (Merge left right → right.gap ≠ []) → Apart (right :: more) → Apart (left :: right :: more)

/-- A printed token cannot go on with what is printed behind it. -/
theorem not_goesOn {p : Printed} {more : List Printed} {last : List Char} {d : Char}
    {rest : List Char} (hapart : Apart (p :: more)) (hlast : Text.AllBlank last)
    (hfollowing : more.flatMap chars ++ last = d :: rest) : ¬ GoesOn p.kind d := by
  intro hgoesOn
  have hblank := hgoesOn.isBlank_eq_false
  cases more with
  | nil =>
      have hd := hlast d (by rw [← List.nil_append last, ← List.flatMap_nil, hfollowing]; simp)
      rw [hblank] at hd
      cases hd
  | cons right more =>
      rw [List.flatMap_cons, chars] at hfollowing
      cases hgap : right.gap with
      | nil =>
          obtain ⟨c, others, hspelling, -⟩ := right.spells.exists_class
          rw [hgap, hspelling] at hfollowing
          obtain ⟨rfl, -⟩ := List.cons.inj hfollowing
          cases hapart with
          | cons hmerge => exact hmerge (merge_of_goesOn hgoesOn hspelling) hgap
      | cons c gap =>
          rw [hgap] at hfollowing
          obtain ⟨rfl, -⟩ := List.cons.inj hfollowing
          have hd := right.blank c (by rw [hgap]; exact List.mem_cons_self)
          rw [hblank] at hd
          cases hd

/-- **Printed tokens that are set apart are a cut** of the text printed. -/
theorem cut_pieces {printed : List Printed} {last : List Char} (passed : List Char)
    (hapart : Apart printed) (hlast : Text.AllBlank last) :
    Cut passed (pieces passed printed) last := by
  induction printed generalizing passed with
  | nil => exact .nil passed last
  | cons p more ih =>
      have hmore : Apart more := by
        cases hapart with
        | single => exact .nil
        | cons _ hmore => exact hmore
      refine .cons ⟨p.blank, p.spells, ?_, rfl⟩ (ih _ hmore)
      rw [flatMap_chars_pieces]
      exact longest_of_not_goesOn p.spells fun d rest => not_goesOn hapart hlast

/-- The tokens are of the kinds printed. -/
theorem map_kind_tokens (passed : List Char) (printed : List Printed) :
    (tokens passed printed).map Token.kind = printed.map kind := by
  induction printed generalizing passed with
  | nil => rfl
  | cons p more ih => exact congrArg (_ :: ·) (ih _)

/-- An operator with nothing in front of it. -/
def operator (kind : Terminal) (text : String) (h : (text, kind) ∈ Terminal.operators) :
    Printed where
  gap := []
  kind := kind
  text := text
  spelling := text.toList
  blank := nofun
  spells := .operator h

/-- A left parenthesis. -/
def leftParenthesis : Printed :=
  operator .leftParenthesis "(" (by decide)

/-- It merges with nothing, so parentheses need not be set apart. -/
theorem apart_parentheses (count : Nat) {more : List Printed} (h : Apart more) :
    Apart (List.replicate count leftParenthesis ++ more) := by
  have hmerge : ∀ right, ¬ Merge leftParenthesis right := by
    intro right hmerge
    cases hmerge with
    | word hword => exact Terminal.not_isWord_leftParenthesis hword
    | numbers hkind => cases hkind
    | operators hkind => rcases hkind with hkind | hkind | hkind <;> cases hkind
  induction count with
  | zero => exact h
  | succ count ih =>
      rw [List.replicate_succ, List.cons_append]
      cases hrest : List.replicate count leftParenthesis ++ more with
      | nil => exact .single _
      | cons right rest =>
          rw [hrest] at ih
          exact .cons (fun hmerged => absurd hmerged (hmerge right)) ih

end Printed

/-! ### Reading undoes printing -/

/-- **A layout**: printed tokens, set apart where they have to be, and a gap after the last one. -/
structure Layout where
  printed : List Printed
  last : List Char
  blank : Text.AllBlank last
  apart : Printed.Apart printed

namespace Layout

/-- The text that is printed. -/
def text (l : Layout) : String :=
  String.ofList (l.printed.flatMap Printed.chars ++ l.last)

/-- A reader over the text gives the tokens that have been printed. -/
theorem gives_text (l : Layout) (file : String) :
    Feed.Gives (Reader.ofText l.text file) (Printed.tokens [] l.printed)
      (.ok (.endOfInput (max (Text.lineCount l.text.toList) 1 : Nat))) := by
  have hcut := Printed.cut_pieces [] l.apart l.blank
  rw [← List.append_nil l.last] at hcut
  have hat := Reader.at_ofText l.text file
  have htext : l.text.toList =
      (Printed.pieces [] l.printed).flatMap Piece.chars ++ (l.last ++ []) := by
    rw [text, String.toList_ofList, Printed.flatMap_chars_pieces, List.append_nil]
  rw [htext] at hat
  have hgives := hat.gives_of_cut hcut l.blank .ended
  rw [Printed.map_token_pieces, List.nil_append] at hgives
  rw [htext, List.append_nil l.last]
  exact hgives

/-- **Reading undoes printing**, whatever the layout: the text has exactly the tokens that have
been printed, each on the line it has been printed on, and the sentinel. -/
theorem tokensOf_text (l : Layout) (file : String) :
    tokensOf (Reader.ofText l.text file) =
      .ok (Printed.tokens [] l.printed ++
        [.endOfInput (max (Text.lineCount l.text.toList) 1 : Nat)]) := by
  obtain ⟨last, hdrain⟩ := (l.gives_text file).drain_ok
  rw [tokensOf, hdrain]

/-- Parentheses, and what is printed behind them. -/
def parentheses (count : Nat) (more : List Printed) (h : Printed.Apart more) : Layout where
  printed := List.replicate count .leftParenthesis ++ more
  last := []
  blank := nofun
  apart := Printed.apart_parentheses count h

/-- The tokens of such a text are parentheses and what is behind them. -/
theorem exists_tokens_parentheses (count : Nat) {more : List Printed} (h : Printed.Apart more) :
    ∃ opening closing, Printed.tokens [] (parentheses count more h).printed = opening ++ closing ∧
      opening.length = count ∧ (∀ t ∈ opening, t.kind = .leftParenthesis) ∧
      closing.map Token.kind = more.map Printed.kind := by
  have hkinds := Printed.map_kind_tokens [] (parentheses count more h).printed
  rw [parentheses, List.map_append, List.map_replicate] at hkinds
  obtain ⟨opening, closing, hsplit, hopening, hclosing⟩ := List.map_eq_append_iff.1 hkinds
  refine ⟨opening, closing, hsplit, ?_, ?_, hclosing⟩
  · rw [← List.length_map Token.kind, hopening, List.length_replicate]
  · intro t ht
    exact List.eq_of_mem_replicate (hopening ▸ List.mem_map_of_mem ht)

/-- Its characters are parentheses and those of what is behind them. -/
theorem not_mem_text_parentheses {count : Nat} {more : List Printed} {h : Printed.Apart more}
    {c : Char} (hc : c ≠ '(') (hmore : c ∉ more.flatMap Printed.chars) :
    c ∉ (parentheses count more h).text.toList := by
  rw [text, String.toList_ofList, parentheses, List.append_nil, List.flatMap_append]
  refine List.not_mem_append (fun hopening => ?_) hmore
  obtain ⟨p, hp, hmem⟩ := List.mem_flatMap.1 hopening
  rw [List.eq_of_mem_replicate hp] at hmem
  exact hc (List.mem_singleton.1 hmem)

/-- An assignment on two lines, whose tokens touch on the first one. -/
def assignment : Layout where
  printed :=
    [⟨[], .identifier, "x", ['x'], nofun,
        .identifier ⟨'x', [], rfl, by decide, nofun⟩ (by simp [Terminal.keywords])⟩,
      ⟨[], .becomes, ":=", [':', '='], nofun, .operator (by simp [Terminal.operators])⟩,
      ⟨['\n'], .numberConstant, "1", ['1'], List.forall_mem_singleton.2 Text.isBlank_newline,
        .number (.whole ⟨List.cons_ne_nil _ _, List.forall_mem_singleton.2 (by decide)⟩)⟩]
  last := []
  blank := nofun
  apart := by
    refine .cons ?_ (.cons (fun _ => List.cons_ne_nil _ _) (.single _))
    intro hmerge
    cases hmerge with
    | word _ hhead halphanum =>
        cases hhead
        exact absurd halphanum (by decide)
    | numbers hkind => cases hkind
    | operators _ hequals => cases hequals

theorem tokensOf_text_assignment :
    assignment.text = "x:=\n1" ∧ tokensOf (Reader.ofText assignment.text "<string>") =
      .ok [⟨.identifier, "x", 1⟩, ⟨.becomes, ":=", 1⟩, ⟨.numberConstant, "1", 2⟩,
        Token.endOfInput 2] :=
  ⟨by decide, tokensOf_text assignment "<string>"⟩

end Layout

end SccSharp
