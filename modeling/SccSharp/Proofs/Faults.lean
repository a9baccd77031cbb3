import SccSharp.Proofs.Cutting

/-!
# Where no token starts

A text that cannot be cut into tokens is at fault at one of its characters: a quotation mark whose
string is not closed on its line, a colon that no equals sign follows, or a character that no lexeme
holds. `Faulty` says that of the text from such a character on, without reading anything, and it
is just the text that no lexeme starts at (`stuck_cons_iff`).

A place is reached if the text in front of it is cut into tokens and blanks. As a text is cut in
one way only (`Cut.unique`), at most one place that is reached is faulty, and draining a reader over
the text fails just if there is one, with the report of that place.

## Main Definitions

* `Faulty` — text that no token starts at, with its fault
* `Reached` — a place of a text behind tokens and blanks

## Main Statements

* `stuck_cons_iff` — the three ways in which no lexeme starts at a character
* `Cut.unique` — a text is cut in one way
* `fault_where_no_token_starts` — when a text has no tokens, and what is reported then
-/

namespace SccSharp

/-! ### Faulty text -/

/-- **Text that no token starts at**, with its fault. A string is not closed on its line, a colon is
not followed by an equals sign, or the first character is one that begins no lexeme: no blank, no
letter, no digit, no quotation mark, and none that an operator is spelled with. -/
inductive Faulty : List Char → Fault → Prop where
  | openString {more : List Char} : Text.quotationMark ∉ Text.firstLine more →
      Faulty (Text.quotationMark :: more) .unterminatedString
  | loneColon {more : List Char} : more.head? ≠ some '=' →
      Faulty (':' :: more) (.strayCharacter ':')
  | foreign {c : Char} {more : List Char} : Text.isBlank c = false → c.isAlpha = false →
      Text.isDigit c = false → c ≠ Text.quotationMark →
        (∀ entry ∈ Terminal.operators, c ∉ entry.1.toList) → Faulty (c :: more) (.strayCharacter c)

namespace Faulty

variable {text : List Char} {fault : Fault}

/-- The fault is that of the first character, which is no blank. -/
theorem exists_first (h : Faulty text fault) :
    ∃ c more, text = c :: more ∧ Text.isBlank c = false ∧ fault = Lexeme.faultAt c := by
  cases h with
  | openString => exact ⟨_, _, rfl, by decide, rfl⟩
  | loneColon => exact ⟨_, _, rfl, by decide, rfl⟩
  | foreign hblank _ _ hquote =>
      refine ⟨_, _, rfl, hblank, ?_⟩
      rw [Lexeme.faultAt, if_neg hquote]

end Faulty

/-! ### No lexeme starts at faulty text -/

/-- An operator that starts with a colon goes on with an equals sign. -/
theorem operator_colon {text : String} {kind : Terminal} {rest : List Char}
    (h : (text, kind) ∈ Terminal.operators) (hchars : text.toList = ':' :: rest) :
    rest = ['='] := by
  have hcolon : ∀ entry ∈ Terminal.operators,
      entry.1.toList.head? = some ':' → entry.1.toList.tail = ['='] := by decide
  have htail := hcolon _ h
  rw [hchars] at htail
  exact htail rfl

/-- A character that an operator is spelled with is one itself, unless it is a colon. -/
theorem operator_singleton {text : String} {kind : Terminal} {c : Char}
    (h : (text, kind) ∈ Terminal.operators) (hmem : c ∈ text.toList) (hcolon : c ≠ ':') :
    ∃ kind', (String.ofList [c], kind') ∈ Terminal.operators := by
  have hsingle : ∀ entry ∈ Terminal.operators, (entry.1.toList.all fun c =>
      c == ':' || (Terminal.operator? (String.ofList [c])).isSome) = true := by decide
  rcases Bool.or_eq_true_iff.1 (List.all_eq_true.1 (hsingle _ h) c hmem) with hsame | hsome
  · exact absurd (beq_iff_eq.1 hsame) hcolon
  · obtain ⟨kind', hkind⟩ := Option.isSome_iff_exists.1 hsome
    exact ⟨kind', Terminal.operator?_eq_some_iff.1 hkind⟩

/-- The first line of a text that does not start with a line feed. -/
theorem Text.firstLine_cons {c : Char} (more : List Char) (hc : Text.isBlank c = false) :
    Text.firstLine (c :: more) = c :: Text.firstLine more := by
  have hne : c ≠ '\n' := by
    rintro rfl
    rw [Text.isBlank_newline] at hc
    cases hc
  exact List.takeWhile_cons_of_pos (bne_iff_ne.2 hne)

/-- **No lexeme starts at faulty text.** -/
theorem Faulty.no_lexeme {text spelling : List Char} {fault : Fault} (h : Faulty text fault)
    (hfront : spelling <+: Text.firstLine text) : ¬ IsLexeme spelling := by
  rintro ⟨kind, content, hspells⟩
  obtain ⟨c, more, rfl, hblank, -⟩ := h.exists_first
  rw [Text.firstLine_cons more hblank] at hfront
  obtain ⟨first, rest, rfl, hclass⟩ := hspells.exists_class
  obtain ⟨rfl, hrest⟩ := List.cons_prefix_cons.1 hfront
  cases h with
  | openString hopen =>
      cases hclass with
      | word halpha => cases halpha
      | number _ hdigit => exact absurd hdigit (by decide)
      | string _ hbody =>
          -- the lexeme would hold the closing quote
          have hclosed : Text.quotationMark ∈ rest := hbody ▸ List.mem_append_right _ (by simp)
          exact hopen (hrest.subset hclosed)
      | operator _ _ hquote => exact hquote rfl
  | loneColon hlone =>
      cases hclass with
      | word halpha => cases halpha
      | number _ hdigit => exact absurd hdigit (by decide)
      | string hquote => exact absurd hquote (by decide)
      | operator _ _ _ hchars hmem =>
          obtain rfl := operator_colon hmem hchars
          obtain ⟨later, hlater⟩ := hrest.trans (List.takeWhile_prefix _)
          rw [← hlater] at hlone
          exact hlone rfl
  | foreign _ halpha hdigit hquote hoperator =>
      cases hclass with
      | word halpha' => exact absurd (halpha.symm.trans halpha') Bool.noConfusion
      | number _ hdigit' => exact absurd (hdigit.symm.trans hdigit') Bool.noConfusion
      | string hquote' => exact hquote hquote'
      | operator _ _ _ hchars hmem =>
          refine hoperator _ hmem ?_
          rw [hchars]
          exact List.mem_cons_self

/-! ### Where no lexeme starts, text is faulty -/

/-- A letter is a lexeme. -/
theorem isLexeme_letter {c : Char} (h : c.isAlpha = true) : IsLexeme [c] := by
  have hword : IsWord (String.ofList [c]).toList := by
    rw [String.toList_ofList]
    exact ⟨c, [], rfl, h, List.forall_mem_nil _⟩
  have hspells := spells_ofWord hword
  rw [String.toList_ofList] at hspells
  exact ⟨_, _, hspells⟩

/-- A digit is a lexeme. -/
theorem isLexeme_digit {c : Char} (h : Text.isDigit c = true) : IsLexeme [c] := by
  have hnumber : IsNumber (String.ofList [c]).toList := by
    rw [String.toList_ofList]
    exact .whole ⟨List.cons_ne_nil _ _, List.forall_mem_singleton.2 h⟩
  have hspells := Spells.number hnumber
  rw [String.toList_ofList] at hspells
  exact ⟨_, _, hspells⟩

/-- An operator is a lexeme. -/
theorem isLexeme_operator {spelling : List Char} {kind : Terminal}
    (h : (String.ofList spelling, kind) ∈ Terminal.operators) : IsLexeme spelling := by
  have hspells := Spells.operator h
  rw [String.toList_ofList] at hspells
  exact ⟨_, _, hspells⟩

/-- A string that is closed on its line starts with a lexeme. -/
theorem exists_isLexeme_string {line : List Char} (hclosed : Text.quotationMark ∈ line)
    (hline : '\n' ∉ line) :
    ∃ spelling, spelling <+: Text.quotationMark :: line ∧ IsLexeme spelling := by
  obtain ⟨body, later, rfl, hfirst⟩ := List.eq_append_cons_of_mem hclosed
  have hbody : ∀ d ∈ (String.ofList body).toList, d ≠ Text.quotationMark ∧ d ≠ '\n' := by
    intro d hd
    rw [String.toList_ofList] at hd
    refine ⟨?_, ?_⟩
    · rintro rfl
      exact hfirst hd
    · rintro rfl
      exact hline (List.mem_append_left _ hd)
  have hspells := Spells.string hbody
  rw [String.toList_ofList] at hspells
  refine ⟨_, ?_, _, _, hspells⟩
  exact List.cons_prefix_cons.2 ⟨rfl, later, by simp⟩

/-- **Where no lexeme starts, text is faulty**, if there is any and no blank in front of it. -/
theorem exists_faulty {c : Char} {more : List Char} (hblank : Text.isBlank c = false)
    (hnone : ∀ spelling, spelling <+: Text.firstLine (c :: more) → ¬ IsLexeme spelling) :
    ∃ fault, Faulty (c :: more) fault := by
  rw [Text.firstLine_cons more hblank] at hnone
  have hsingle : ¬ IsLexeme [c] := hnone [c] (List.cons_prefix_cons.2 ⟨rfl, List.nil_prefix⟩)
  have halpha : c.isAlpha = false := Bool.eq_false_iff.2 fun h => hsingle (isLexeme_letter h)
  have hdigit : Text.isDigit c = false := Bool.eq_false_iff.2 fun h => hsingle (isLexeme_digit h)
  by_cases hquote : c = Text.quotationMark
  · subst hquote
    refine ⟨_, .openString ?_⟩
    intro hclosed
    have hline : '\n' ∉ Text.firstLine more := by
      intro h
      simpa using List.all_eq_true.1 List.all_takeWhile _ h
    obtain ⟨spelling, hfront, hlexeme⟩ := exists_isLexeme_string hclosed hline
    exact hnone spelling hfront hlexeme
  · by_cases hcolon : c = ':'
    · subst hcolon
      refine ⟨_, .loneColon ?_⟩
      intro hequals
      obtain ⟨later, rfl⟩ := List.head?_eq_some_iff.1 hequals
      have hmem : (String.ofList [':', '='], Terminal.becomes) ∈ Terminal.operators := by decide
      have hbecomes : IsLexeme [':', '='] := isLexeme_operator hmem
      refine hnone _ ?_ hbecomes
      rw [Text.firstLine_cons later (by decide)]
      exact List.cons_prefix_cons.2 ⟨rfl, List.cons_prefix_cons.2 ⟨rfl, List.nil_prefix⟩⟩
    · refine ⟨_, .foreign hblank halpha hdigit hquote ?_⟩
      intro entry hentry hmem
      obtain ⟨kind, hkind⟩ := operator_singleton hentry hmem hcolon
      exact hsingle (isLexeme_operator hkind)

/-- **The ways in which no lexeme starts at a character.** -/
theorem stuck_cons_iff {c : Char} {more : List Char} :
    Stuck (c :: more) ↔ ∃ fault, Faulty (c :: more) fault := by
  constructor
  · intro h
    cases h with
    | fault hblank hnone => exact exists_faulty hblank hnone
  · rintro ⟨fault, h⟩
    obtain ⟨_, _, hsplit, hblank, -⟩ := h.exists_first
    cases hsplit
    exact .fault hblank fun _ hfront => h.no_lexeme hfront

/-! ### Texts are cut in one way -/

/-- Blanks at the front of a text are a gap up to a character that is none. -/
theorem takeWhile_gap {gap rest : List Char} (hgap : Text.AllBlank gap)
    (hrest : ∀ c more, rest = c :: more → Text.isBlank c = false) :
    (gap ++ rest).takeWhile Text.isBlank = gap := by
  rw [List.takeWhile_append_of_pos hgap]
  cases rest with
  | nil => rw [List.takeWhile_nil, List.append_nil]
  | cons c more =>
      rw [List.takeWhile_cons_of_neg (by simp [hrest c more rfl]), List.append_nil]

/-- Two texts that are equal have one gap in front. -/
theorem gap_unique {gap gap' rest rest' : List Char} (same : gap ++ rest = gap' ++ rest')
    (hgap : Text.AllBlank gap) (hgap' : Text.AllBlank gap')
    (hrest : ∀ c more, rest = c :: more → Text.isBlank c = false)
    (hrest' : ∀ c more, rest' = c :: more → Text.isBlank c = false) :
    gap = gap' ∧ rest = rest' := by
  have hsame : gap = gap' := by
    rw [← takeWhile_gap hgap hrest, same, takeWhile_gap hgap' hrest']
  subst hsame
  exact ⟨rfl, List.append_cancel_left same⟩

/-- Stuck text does not start with a blank. -/
theorem Stuck.isBlank_first {rest : List Char} (h : Stuck rest) :
    ∀ c more, rest = c :: more → Text.isBlank c = false := by
  rintro c more rfl
  cases h with
  | fault hblank => exact hblank

namespace Piece

variable {p p' : Piece} {passed following following' : List Char}

/-- The spelling of a piece does not start with a blank, whatever follows it. -/
theorem Fits.isBlank_first (h : p.Fits passed following) :
    ∀ c more, p.spelling ++ following = c :: more → Text.isBlank c = false := by
  intro c more hsplit
  obtain ⟨first, rest, hspelling, -⟩ := h.spells.exists_class
  have hspells := h.spells
  rw [hspelling] at hsplit hspells
  obtain ⟨rfl, -⟩ := List.cons.inj hsplit
  exact hspells.isBlank_first

/-- **One piece fits in front of a text.** -/
theorem Fits.unique (h : p.Fits passed following) (h' : p'.Fits passed following')
    (same : p.chars ++ following = p'.chars ++ following') : p = p' ∧ following = following' := by
  obtain ⟨gap, spelling, kind, text, line⟩ := p
  obtain ⟨gap', spelling', kind', text', line'⟩ := p'
  rw [chars, chars, List.append_assoc, List.append_assoc] at same
  obtain ⟨hgap, htext⟩ := gap_unique same h.blank h'.blank h.isBlank_first h'.isBlank_first
  have hlongest := h.longest
  have hlongest' := h'.longest
  dsimp only at hgap htext hlongest hlongest'
  rw [← htext] at hlongest'
  -- each of the spellings is a lexeme in front of the same line, so none is longer
  have hle := hlongest'.length_le _ hlongest.isPrefix ⟨_, _, h.spells⟩
  have hge := hlongest.length_le _ hlongest'.isPrefix ⟨_, _, h'.spells⟩
  have hspelling : spelling = spelling' :=
    (List.prefix_of_prefix_length_le hlongest.isPrefix hlongest'.isPrefix hle).eq_of_length
      (Nat.le_antisymm hle hge)
  subst hgap hspelling
  obtain ⟨hkind, hcontent⟩ := h.spells.unique h'.spells
  have hline := h.line.trans h'.line.symm
  dsimp only at hkind hcontent hline
  subst hkind hcontent hline
  exact ⟨rfl, List.append_cancel_left htext⟩

/-- No piece fits where a text is stuck. -/
theorem Fits.not_stuck {gap rest : List Char} (h : p.Fits passed following)
    (hgap : Text.AllBlank gap) (hstuck : Stuck rest) : gap ++ rest ≠ p.chars ++ following := by
  intro same
  rw [chars, List.append_assoc] at same
  obtain ⟨-, rfl⟩ := gap_unique same hgap h.blank hstuck.isBlank_first h.isBlank_first
  obtain ⟨first, more, hspelling, -⟩ := h.spells.exists_class
  generalize htext : p.spelling ++ following = text at hstuck
  cases hstuck with
  | ended =>
      rw [hspelling] at htext
      cases htext
  | fault _ hnone =>
      have hfront := h.longest.isPrefix
      rw [htext] at hfront
      exact hnone p.spelling hfront ⟨_, _, h.spells⟩

end Piece

/-- **A text is cut in one way** up to where it is stuck. -/
theorem Cut.unique {passed gap gap' rest rest' : List Char} {pieces pieces' : List Piece}
    (h : Cut passed pieces (gap ++ rest)) (h' : Cut passed pieces' (gap' ++ rest'))
    (same : pieces.flatMap Piece.chars ++ (gap ++ rest) =
      pieces'.flatMap Piece.chars ++ (gap' ++ rest'))
    (hgap : Text.AllBlank gap) (hgap' : Text.AllBlank gap') (hstuck : Stuck rest)
    (hstuck' : Stuck rest') : pieces = pieces' ∧ gap = gap' ∧ rest = rest' := by
  induction pieces generalizing passed pieces' with
  | nil =>
      cases h' with
      | nil => exact ⟨rfl, gap_unique same hgap hgap' hstuck.isBlank_first hstuck'.isBlank_first⟩
      | cons hfits' =>
          rw [List.flatMap_nil, List.nil_append, List.flatMap_cons, List.append_assoc] at same
          exact absurd same (hfits'.not_stuck hgap hstuck)
  | cons p pieces ih =>
      cases h with
      | cons hfits h =>
          rw [List.flatMap_cons, List.append_assoc] at same
          cases h' with
          | nil =>
              rw [List.flatMap_nil, List.nil_append] at same
              exact absurd same.symm (hfits.not_stuck hgap' hstuck')
          | cons hfits' h' =>
              rw [List.flatMap_cons, List.append_assoc] at same
              obtain ⟨rfl, hlater⟩ := hfits.unique hfits' same
              obtain ⟨rfl, hends⟩ := ih h h' hlater
              exact ⟨rfl, hends⟩

/-! ### Places that are reached -/

/-- **A place that is reached** in a text: what comes before it is cut into tokens, each the longest
lexeme where it stands, and blanks. -/
def Reached (text passed rest : List Char) : Prop :=
  ∃ pieces gap, text = pieces.flatMap Piece.chars ++ (gap ++ rest) ∧
    passed = pieces.flatMap Piece.chars ++ gap ∧ Cut [] pieces (gap ++ rest) ∧ Text.AllBlank gap

/-- Faulty text is stuck. -/
theorem Faulty.stuck {rest : List Char} {fault : Fault} (h : Faulty rest fault) : Stuck rest := by
  obtain ⟨c, more, rfl, -⟩ := h.exists_first
  exact stuck_cons_iff.2 ⟨fault, h⟩

/-- **At most one place that is reached is faulty.** -/
theorem Reached.unique {text passed passed' rest rest' : List Char} {fault fault' : Fault}
    (h : Reached text passed rest) (hfaulty : Faulty rest fault) (h' : Reached text passed' rest')
    (hfaulty' : Faulty rest' fault') : passed = passed' ∧ rest = rest' := by
  obtain ⟨pieces, gap, rfl, rfl, hcut, hgap⟩ := h
  obtain ⟨pieces', gap', hsplit, rfl, hcut', hgap'⟩ := h'
  obtain ⟨rfl, rfl, rfl⟩ :=
    hcut.unique hcut' hsplit hgap hgap' hfaulty.stuck hfaulty'.stuck
  exact ⟨rfl, rfl⟩

/-- **Where a place that is reached is faulty**, the text has no tokens. -/
theorem tokensOf_of_faulty {text file : String} {passed rest : List Char} {fault : Fault}
    (h : Reached text.toList passed rest) (hfaulty : Faulty rest fault) :
    tokensOf (.ofText text file) = .error (.malformed
      (fault.diagnostic ⟨file, Text.lineAfter passed, Text.columnAfter passed⟩)) := by
  obtain ⟨pieces, gap, htext, rfl, hcut, hgap⟩ := h
  have hat := Reader.at_ofText text file
  rw [htext] at hat
  have hgives := hat.gives_of_cut hcut hgap hfaulty.stuck
  obtain ⟨c, more, rfl, -, rfl⟩ := hfaulty.exists_first
  obtain ⟨last, hdrain⟩ := hgives.drain_error
  rw [tokensOf, hdrain]
  rfl

/-- **A text without tokens is faulty** at a place that is reached. -/
theorem exists_faulty_of_tokensOf {text file : String} {failure : SourceFailure}
    (h : tokensOf (.ofText text file) = .error failure) :
    ∃ passed rest fault, Reached text.toList passed rest ∧ Faulty rest fault := by
  obtain ⟨pieces, gap, rest, htext, hcut, hgap, hstuck⟩ := exists_cut [] text.toList
  have hreached : Reached text.toList (pieces.flatMap Piece.chars ++ gap) rest :=
    ⟨pieces, gap, htext, rfl, hcut, hgap⟩
  cases rest with
  | nil =>
      have hat := Reader.at_ofText text file
      rw [htext] at hat
      obtain ⟨last, hdrain⟩ := (hat.gives_of_cut hcut hgap hstuck).drain_ok
      rw [tokensOf, hdrain] at h
      cases h
  | cons c more =>
      obtain ⟨fault, hfaulty⟩ := stuck_cons_iff.1 hstuck
      exact ⟨_, _, fault, hreached, hfaulty⟩

/-! ### Reports of faults -/

/-- A character occurs in a text if it is one of it. -/
theorem occursIn_singleton (c : Char) (text : List Char) :
    occursIn [c] text = true ↔ c ∈ text := by
  rw [occursIn_iff]
  constructor
  · intro h
    exact h.subset (List.mem_singleton_self c)
  · intro h
    obtain ⟨before, after, rfl⟩ := List.append_of_mem h
    exact ⟨before, after, by simp⟩

/-- **What is suggested for a character that starts no token**: the assignment for a colon, and
nothing for any other. -/
theorem Faulty.suggestedOperators_eq {rest : List Char} {c : Char}
    (h : Faulty rest (.strayCharacter c)) :
    suggestedOperators (String.singleton c) = if c = ':' then [":="] else [] := by
  cases h with
  | loneColon => decide
  | foreign _ _ _ _ hoperator =>
      have hcolon : c ≠ ':' := by
        rintro rfl
        exact hoperator (":=", .becomes) (by decide) (by decide)
      have hnone : ∀ spelling ∈ Terminal.operators.map Prod.fst,
          occursIn (String.singleton c).toList spelling.toList = false := by
        intro spelling hmem
        obtain ⟨entry, hentry, rfl⟩ := List.mem_map.1 hmem
        rw [String.toList_singleton, Bool.eq_false_iff, Ne, occursIn_singleton]
        exact hoperator entry hentry
      have hempty : (Terminal.operators.map Prod.fst).filter (fun spelling =>
          occursIn (String.singleton c).toList spelling.toList && spelling != String.singleton c) =
            [] := by
        rw [List.filter_eq_nil_iff]
        intro spelling hmem
        rw [hnone spelling hmem]
        exact Bool.false_ne_true
      rw [if_neg hcolon, suggestedOperators, hempty, List.take_nil]

/-- **A text has no tokens just if it is faulty at a place that is reached**, and the report names
that place. It is the only one of its kind, so the first.

A string that is not closed on its line is reported as `L002`. Any other fault is reported as `L001`
with the character in the message, with the assignment suggested for a colon and nothing for any
other character, and such a report can be made for every character. -/
theorem fault_where_no_token_starts (text file : String) :
    (∀ failure, tokensOf (.ofText text file) = .error failure ↔
      ∃ passed rest fault, Reached text.toList passed rest ∧ Faulty rest fault ∧
        failure = .malformed
          (fault.diagnostic ⟨file, Text.lineAfter passed, Text.columnAfter passed⟩)) ∧
    (∀ passed rest fault passed' rest' fault',
      Reached text.toList passed rest → Faulty rest fault →
        Reached text.toList passed' rest' → Faulty rest' fault' → passed = passed' ∧ rest = rest') ∧
    ∀ (rest : List Char) (fault : Fault) (location : Location), Faulty rest fault →
      (fault.diagnostic location).location = location ∧
      (fault = .unterminatedString → (fault.diagnostic location).code = some "L002") ∧
      ∀ c, fault = .strayCharacter c →
        rest.head? = some c ∧
        (fault.diagnostic location).code = some "L001" ∧
        (fault.diagnostic location).message = "Invalid character: '" ++ String.singleton c ++ "'" ∧
        (fault.diagnostic location).suggestions =
          some (if c = ':' then ["Did you mean ':='?"] else []) ∧
        Diagnostic.ofStray? (String.singleton c) location = some (fault.diagnostic location) := by
  refine ⟨?_, fun _ _ _ _ _ _ h hfaulty h' hfaulty' => h.unique hfaulty h' hfaulty', ?_⟩
  · intro failure
    constructor
    · intro h
      obtain ⟨passed, rest, fault, hreached, hfaulty⟩ := exists_faulty_of_tokensOf h
      refine ⟨passed, rest, fault, hreached, hfaulty, ?_⟩
      exact Except.error.inj (h.symm.trans (tokensOf_of_faulty hreached hfaulty))
    · rintro ⟨passed, rest, fault, hreached, hfaulty, rfl⟩
      exact tokensOf_of_faulty hreached hfaulty
  · intro rest fault location hfaulty
    refine ⟨by cases fault <;> rfl, ?_, ?_⟩
    · rintro rfl
      rfl
    · rintro c rfl
      obtain ⟨d, more, rfl, -, hfault⟩ := hfaulty.exists_first
      have hsame : c = d := by
        unfold Lexeme.faultAt at hfault
        split at hfault
        · cases hfault
        · exact Fault.strayCharacter.inj hfault
      refine ⟨congrArg some hsame.symm, rfl, rfl, ?_, Diagnostic.ofStray?_singleton c location⟩
      show some ((suggestedOperators (String.singleton c)).map _) = _
      rw [hfaulty.suggestedOperators_eq]
      split <;> rfl

/-- A letter and, on the next line, a colon without its equals sign. -/
def loneColon : String :=
  "a\n :-"

/-- The colon is reached. -/
theorem reached_loneColon : Reached loneColon.toList ['a', '\n', ' '] [':', '-'] := by
  have hspells : Spells .identifier "a" ['a'] := by
    refine .identifier ⟨'a', [], rfl, rfl, List.forall_mem_nil _⟩ ?_
    have hnone : ∀ entry ∈ Terminal.keywords, entry.1 ≠ "a" := by decide
    exact fun kind hmem => hnone _ hmem rfl
  have hfits : (Piece.ofLexeme [] [] ['a'] .identifier "a").Fits [] ['\n', ' ', ':', '-'] :=
    ⟨List.forall_mem_nil _, hspells, Longest.self ['a'], rfl⟩
  have hgap : (['\n', ' '].all Text.isBlank) = true := by decide
  exact ⟨[_], ['\n', ' '], by decide, rfl, .cons hfits (.nil _ _), List.all_eq_true.1 hgap⟩

/-- It is reported where it stands, with the assignment suggested. -/
theorem fault_where_no_token_starts_loneColon :
    Reached loneColon.toList ['a', '\n', ' '] [':', '-'] ∧
      Faulty [':', '-'] (.strayCharacter ':') ∧
      tokensOf (.ofText loneColon "a.scc") =
        .error (.malformed ((Fault.strayCharacter ':').diagnostic ⟨"a.scc", 2, 2⟩)) ∧
      ((Fault.strayCharacter ':').diagnostic ⟨"a.scc", 2, 2⟩).suggestions =
        some ["Did you mean ':='?"] := by
  have hfaulty : Faulty [':', '-'] (.strayCharacter ':') := .loneColon (by decide)
  obtain ⟨hfails, -, hreports⟩ := fault_where_no_token_starts loneColon "a.scc"
  obtain ⟨-, -, hreport⟩ := hreports _ _ ⟨"a.scc", 2, 2⟩ hfaulty
  obtain ⟨-, -, -, hsuggestions, -⟩ := hreport ':' rfl
  exact ⟨reached_loneColon, hfaulty,
    (hfails _).2 ⟨_, _, _, reached_loneColon, hfaulty, rfl⟩, hsuggestions⟩

end SccSharp
