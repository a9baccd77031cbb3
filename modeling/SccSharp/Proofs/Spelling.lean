import SccSharp.Lexeme

/-!
# Spellings

What the lexemes are, apart from how they are read. `Spells` says which characters spell a token of
a given kind and text; a lexeme is what spells some token, and no lexeme spells two.

Reading agrees with that. The lexeme read at the front of a text spells its token and no longer one
stands there, and reading fails only where none does. So the longest lexeme at the front of a text
is the one that is read (`Lexeme.read_of_longest`).

## Main Definitions

* `Spells` — the characters of a token
* `IsLexeme` — the characters of some token
* `Longest` — the longest lexeme at the front of a text

## Main Statements

* `Lexeme.read_of_longest` — the longest lexeme is read
* `Lexeme.read_of_none` — where there is no lexeme, its first character is at fault
* `exists_longest_or_none` — there is a longest lexeme unless there is none
-/

namespace SccSharp

/-! ### The characters of a token -/

/-- **A word**: an ASCII letter, then ASCII letters, ASCII digits and underscores. -/
def IsWord (spelling : List Char) : Prop :=
  ∃ c rest, spelling = c :: rest ∧ c.isAlpha = true ∧ ∀ d ∈ rest, d.isAlphanum = true ∨ d = '_'

/-- Decimal digits, at least one. -/
def IsDigits (spelling : List Char) : Prop :=
  spelling ≠ [] ∧ ∀ d ∈ spelling, Text.isDigit d = true

/-- **A number**: decimal digits, and possibly a point and more of them. -/
inductive IsNumber : List Char → Prop where
  | whole {digits : List Char} : IsDigits digits → IsNumber digits
  | decimal {digits fraction : List Char} :
      IsDigits digits → IsDigits fraction → IsNumber (digits ++ '.' :: fraction)

/-- **The characters that spell a token** of a kind with a text. The text is what is spelled, but
for a string without its quotes. A reserved word is no identifier. -/
inductive Spells : Terminal → String → List Char → Prop where
  | keyword {kind : Terminal} {text : String} :
      (text, kind) ∈ Terminal.keywords → Spells kind text text.toList
  | identifier {text : String} :
      IsWord text.toList → (∀ kind, (text, kind) ∉ Terminal.keywords) →
        Spells .identifier text text.toList
  | number {text : String} : IsNumber text.toList → Spells .numberConstant text text.toList
  | string {text : String} :
      (∀ c ∈ text.toList, c ≠ Text.quotationMark ∧ c ≠ '\n') →
        Spells .stringConstant text (Text.quotationMark :: (text.toList ++ [Text.quotationMark]))
  | operator {kind : Terminal} {text : String} :
      (text, kind) ∈ Terminal.operators → Spells kind text text.toList

/-- **A lexeme**: the characters that spell some token. -/
def IsLexeme (spelling : List Char) : Prop :=
  ∃ kind text, Spells kind text spelling

/-- **The longest lexeme at the front of a text**, as far as length goes. -/
structure Longest (spelling text : List Char) : Prop where
  isPrefix : spelling <+: text
  length_le : ∀ other, other <+: text → IsLexeme other → other.length ≤ spelling.length

/-! ### Spellings by name -/

namespace Terminal

/-- A reserved word has its own kind. -/
theorem ofWord_of_mem {text : String} {kind : Terminal} (h : (text, kind) ∈ keywords) :
    ofWord text = kind := by
  have hkinds : ∀ entry ∈ keywords, ofWord entry.1 = entry.2 := by decide
  exact hkinds _ h

/-- Any other word is an identifier. -/
theorem ofWord_of_not_mem {text : String} (h : ∀ kind, (text, kind) ∉ keywords) :
    ofWord text = identifier := by
  cases hlookup : keywords.lookup text with
  | none => rw [ofWord, hlookup, Option.getD_none]
  | some kind =>
      obtain ⟨first, last, hsplit, -⟩ := List.lookup_eq_some_iff.1 hlookup
      have hmem : (text, kind) ∈ keywords := by
        rw [hsplit]
        exact List.mem_append_right first List.mem_cons_self
      exact absurd hmem (h kind)

/-- The operator with a spelling is found by it. -/
theorem operator?_eq_some_iff {text : String} {kind : Terminal} :
    operator? text = some kind ↔ (text, kind) ∈ operators := by
  constructor
  · intro h
    obtain ⟨first, last, hsplit, -⟩ := List.lookup_eq_some_iff.1 h
    rw [hsplit]
    exact List.mem_append_right first List.mem_cons_self
  · intro h
    have hkinds : ∀ entry ∈ operators, operator? entry.1 = some entry.2 := by decide
    exact hkinds _ h

end Terminal

/-- A word spells what it is the word of. -/
theorem spells_ofWord {text : String} (h : IsWord text.toList) :
    Spells (.ofWord text) text text.toList := by
  by_cases hkeyword : ∃ kind, (text, kind) ∈ Terminal.keywords
  · obtain ⟨kind, hmem⟩ := hkeyword
    rw [Terminal.ofWord_of_mem hmem]
    exact .keyword hmem
  · have hnone := not_exists.1 hkeyword
    rw [Terminal.ofWord_of_not_mem hnone]
    exact .identifier h hnone

/-! ### Lexemes by their first character -/

/-- The reserved words are words. -/
theorem isWord_of_mem_keywords {text : String} {kind : Terminal}
    (h : (text, kind) ∈ Terminal.keywords) : IsWord text.toList := by
  have hshape : ∀ entry ∈ Terminal.keywords, entry.1.toList.head?.any Char.isAlpha = true ∧
      entry.1.toList.tail.all Lexeme.isWordCharacter = true := by decide
  obtain ⟨hhead, htail⟩ := hshape _ h
  obtain ⟨c, hc, halpha⟩ := (Option.any_eq_true _ _).1 hhead
  obtain ⟨rest, hrest⟩ := List.head?_eq_some_iff.1 hc
  rw [hrest] at htail
  refine ⟨c, rest, hrest, halpha, ?_⟩
  intro d hd
  simpa [Lexeme.isWordCharacter] using List.all_eq_true.1 htail d hd

/-- An operator starts with no letter, no digit and no quote. -/
theorem first_of_mem_operators {text : String} {kind : Terminal} {c : Char} {rest : List Char}
    (h : (text, kind) ∈ Terminal.operators) (hchars : text.toList = c :: rest) :
    c.isAlpha = false ∧ Text.isDigit c = false ∧ c ≠ Text.quotationMark := by
  have hshape : ∀ entry ∈ Terminal.operators, entry.1.toList.head?.all fun c =>
      c.isAlpha = false ∧ Text.isDigit c = false ∧ c ≠ Text.quotationMark := by decide
  have hfirst := hshape _ h
  rw [hchars] at hfirst
  simpa using hfirst

/-- A number starts with a digit. -/
theorem IsNumber.exists_first {spelling : List Char} (h : IsNumber spelling) :
    ∃ c rest, spelling = c :: rest ∧ Text.isDigit c = true := by
  have hfirst : ∀ digits : List Char, IsDigits digits →
      ∃ c rest, digits = c :: rest ∧ Text.isDigit c = true := by
    intro digits hdigits
    obtain ⟨c, rest, rfl⟩ := List.exists_cons_of_ne_nil hdigits.1
    exact ⟨c, rest, rfl, hdigits.2 c List.mem_cons_self⟩
  cases h with
  | whole hdigits => exact hfirst _ hdigits
  | @decimal digits fraction hdigits _ =>
      obtain ⟨c, rest, rfl, hc⟩ := hfirst _ hdigits
      exact ⟨c, rest ++ '.' :: fraction, rfl, hc⟩

/-- What a first character makes of a lexeme. -/
inductive Spells.Class (kind : Terminal) (text : String) (c : Char) (rest : List Char) : Prop where
  | word : c.isAlpha = true → IsWord (c :: rest) → text.toList = c :: rest →
      kind = .ofWord text → Class kind text c rest
  | number : c.isAlpha = false → Text.isDigit c = true → IsNumber (c :: rest) →
      text.toList = c :: rest → kind = .numberConstant → Class kind text c rest
  | string : c = Text.quotationMark → rest = text.toList ++ [Text.quotationMark] →
      (∀ d ∈ text.toList, Lexeme.isStringCharacter d = true) → kind = .stringConstant →
        Class kind text c rest
  | operator : c.isAlpha = false → Text.isDigit c = false → c ≠ Text.quotationMark →
      text.toList = c :: rest → (text, kind) ∈ Terminal.operators → Class kind text c rest

/-- **A lexeme has a first character, and that decides what it is.** -/
theorem Spells.exists_class {kind : Terminal} {text : String} {spelling : List Char}
    (h : Spells kind text spelling) :
    ∃ c rest, spelling = c :: rest ∧ Spells.Class kind text c rest := by
  cases h with
  | keyword hmem =>
      obtain ⟨c, rest, hsplit, halpha, htail⟩ := isWord_of_mem_keywords hmem
      exact ⟨c, rest, hsplit, .word halpha ⟨c, rest, rfl, halpha, htail⟩ hsplit
        (Terminal.ofWord_of_mem hmem).symm⟩
  | identifier hword hnone =>
      obtain ⟨c, rest, hsplit, halpha, htail⟩ := hword
      exact ⟨c, rest, hsplit, .word halpha ⟨c, rest, rfl, halpha, htail⟩ hsplit
        (Terminal.ofWord_of_not_mem hnone).symm⟩
  | number hnumber =>
      obtain ⟨c, rest, hsplit, hdigit⟩ := hnumber.exists_first
      have halpha : c.isAlpha = false := by
        rw [Bool.eq_false_iff]
        intro halpha
        rw [Text.isDigit_eq_false_of_isAlpha halpha] at hdigit
        cases hdigit
      rw [hsplit] at hnumber
      exact ⟨c, rest, hsplit, .number halpha hdigit hnumber hsplit rfl⟩
  | string hbody =>
      refine ⟨_, _, rfl, .string rfl rfl ?_ rfl⟩
      intro d hd
      simpa [Lexeme.isStringCharacter] using hbody d hd
  | operator hmem =>
      have hnonempty : ∀ entry ∈ Terminal.operators, entry.1.toList ≠ [] := by decide
      obtain ⟨c, rest, hsplit⟩ := List.exists_cons_of_ne_nil (hnonempty _ hmem)
      obtain ⟨halpha, hdigit, hquote⟩ := first_of_mem_operators hmem hsplit
      exact ⟨c, rest, hsplit, .operator halpha hdigit hquote hsplit hmem⟩

/-! ### What is read is a lexeme -/

namespace Lexeme

/-- The word at the front of a text that starts with a letter. -/
theorem isWord_wordSpelling {c : Char} (rest : List Char) (h : c.isAlpha = true) :
    IsWord (wordSpelling (c :: rest)) := by
  have hfirst : isWordCharacter c = true := by simp [isWordCharacter, Char.isAlphanum, h]
  refine ⟨c, rest.takeWhile isWordCharacter, List.takeWhile_cons_of_pos hfirst, h, ?_⟩
  intro d hd
  simpa [isWordCharacter] using List.all_eq_true.1 List.all_takeWhile d hd

/-- A fraction is nothing, or a point and digits. -/
theorem fractionSpelling_cases (text : List Char) :
    fractionSpelling text = [] ∨
      ∃ digits, IsDigits digits ∧ fractionSpelling text = '.' :: digits := by
  unfold fractionSpelling
  split
  · next rest =>
      split
      · exact .inl rfl
      · next digits hdigits =>
          refine .inr ⟨_, ⟨hdigits, ?_⟩, rfl⟩
          exact fun d hd => List.all_eq_true.1 List.all_takeWhile d hd
  · exact .inl rfl

/-- The number at the front of a text that starts with a digit. -/
theorem isNumber_numberSpelling {c : Char} (rest : List Char) (h : Text.isDigit c = true) :
    IsNumber (numberSpelling (c :: rest)) := by
  have hdigits : IsDigits ((c :: rest).takeWhile Text.isDigit) := by
    refine ⟨?_, fun d hd => List.all_eq_true.1 List.all_takeWhile d hd⟩
    rw [List.takeWhile_cons_of_pos h]
    exact List.cons_ne_nil _ _
  unfold numberSpelling
  rcases fractionSpelling_cases ((c :: rest).dropWhile Text.isDigit) with
    hnone | ⟨fraction, hfraction, hpoint⟩
  · rw [hnone, List.append_nil]
    exact .whole hdigits
  · rw [hpoint]
    exact .decimal hdigits hfraction

/-- The operator at the front of a text is one of the list. -/
theorem mem_of_operator? {text : List Char} {lexeme : Lexeme} (h : operator? text = some lexeme) :
    (String.ofList lexeme.spelling, lexeme.kind) ∈ Terminal.operators := by
  obtain ⟨length, -, hlength⟩ := List.exists_of_findSome?_eq_some h
  obtain ⟨kind, hkind, rfl⟩ := Option.map_eq_some_iff.1 hlength
  exact Terminal.operator?_eq_some_iff.1 hkind

/-- The string whose opening quote has been read. -/
theorem stringSpelling?_eq_some {rest spelling : List Char}
    (h : stringSpelling? rest = some spelling) :
    spelling = Text.quotationMark ::
      (rest.takeWhile isStringCharacter ++ [Text.quotationMark]) := by
  unfold stringSpelling? at h
  split at h
  · cases h
    rfl
  · cases h

/-- **What is read spells a token.** -/
theorem exists_spells_of_read {c : Char} {rest : List Char} {lexeme : Lexeme}
    (h : read c rest = .ok lexeme) : ∃ text, Spells lexeme.kind text lexeme.spelling := by
  unfold read at h
  split at h
  · next halpha =>
      cases h
      have hword : IsWord (String.ofList (wordSpelling (c :: rest))).toList := by
        rw [String.toList_ofList]
        exact isWord_wordSpelling rest halpha
      have hspells := spells_ofWord hword
      rw [String.toList_ofList] at hspells
      exact ⟨_, hspells⟩
  split at h
  · next hdigit =>
      cases h
      have hnumber : IsNumber (String.ofList (numberSpelling (c :: rest))).toList := by
        rw [String.toList_ofList]
        exact isNumber_numberSpelling rest hdigit
      have hspells := Spells.number hnumber
      rw [String.toList_ofList] at hspells
      exact ⟨_, hspells⟩
  split at h
  · split at h
    · next hspelling =>
        cases h
        have hbody : ∀ d ∈ (String.ofList (rest.takeWhile isStringCharacter)).toList,
            d ≠ Text.quotationMark ∧ d ≠ '\n' := by
          intro d hd
          rw [String.toList_ofList] at hd
          simpa [isStringCharacter] using List.all_eq_true.1 List.all_takeWhile d hd
        have hspells := Spells.string hbody
        rw [String.toList_ofList, ← stringSpelling?_eq_some hspelling] at hspells
        exact ⟨_, hspells⟩
    · cases h
  · split at h
    · next hoperator =>
        cases h
        have hspells := Spells.operator (mem_of_operator? hoperator)
        rw [String.toList_ofList] at hspells
        exact ⟨_, hspells⟩
    · cases h

/-- The text of a lexeme is the text of the token it spells. -/
theorem text_of_spells {kind : Terminal} {text : String} {spelling : List Char}
    (h : Spells kind text spelling) : Lexeme.text ⟨kind, spelling⟩ = text := by
  have hkeywords : ∀ entry ∈ Terminal.keywords, entry.2 ≠ .stringConstant := by decide
  have hoperators : ∀ entry ∈ Terminal.operators, entry.2 ≠ .stringConstant := by decide
  cases h with
  | keyword hmem => simp [Lexeme.text, hkeywords _ hmem]
  | identifier => simp [Lexeme.text]
  | number => simp [Lexeme.text]
  | string => simp [Lexeme.text]
  | operator hmem => simp [Lexeme.text, hoperators _ hmem]

/-! ### Nothing longer is a lexeme -/

/-- What a class of characters makes up at the front of a text is no longer than all of it. -/
theorem isPrefix_takeWhile {p : Char → Bool} {part text : List Char} (h : part <+: text)
    (hall : ∀ d ∈ part, p d = true) : part <+: text.takeWhile p := by
  obtain ⟨more, rfl⟩ := h
  rw [List.takeWhile_append_of_pos hall]
  exact List.prefix_append _ _

/-- No word at the front of a text is longer than the one that is read. -/
theorem isPrefix_wordSpelling {word text : List Char} (h : IsWord word) (hfront : word <+: text) :
    word <+: wordSpelling text := by
  obtain ⟨c, rest, rfl, halpha, hrest⟩ := h
  refine isPrefix_takeWhile hfront ?_
  intro d hd
  rcases List.mem_cons.1 hd with rfl | hd
  · simp [isWordCharacter, Char.isAlphanum, halpha]
  · simpa [isWordCharacter] using hrest d hd

/-- The fraction behind a point that digits follow. -/
theorem fractionSpelling_point {fraction : List Char} (more : List Char) (h : IsDigits fraction) :
    fractionSpelling ('.' :: (fraction ++ more)) =
      '.' :: (fraction ++ more.takeWhile Text.isDigit) := by
  have htake : (fraction ++ more).takeWhile Text.isDigit =
      fraction ++ more.takeWhile Text.isDigit := List.takeWhile_append_of_pos h.2
  obtain ⟨d, digits, rfl⟩ := List.exists_cons_of_ne_nil h.1
  simp only [List.cons_append] at htake ⊢
  simp only [fractionSpelling, htake]

/-- No number at the front of a text is longer than the one that is read. -/
theorem isPrefix_numberSpelling {number text : List Char} (h : IsNumber number)
    (hfront : number <+: text) : number <+: numberSpelling text := by
  cases h with
  | whole hdigits =>
      exact (isPrefix_takeWhile hfront hdigits.2).trans (List.prefix_append _ _)
  | @decimal digits fraction hdigits hfraction =>
      obtain ⟨more, rfl⟩ := hfront
      have hpoint : Text.isDigit '.' = false := by decide
      have hsplit : digits ++ '.' :: fraction ++ more = digits ++ '.' :: (fraction ++ more) := by
        simp
      rw [hsplit, numberSpelling, List.takeWhile_append_of_pos hdigits.2,
        List.dropWhile_append_of_pos hdigits.2, List.takeWhile_cons_of_neg (by simp [hpoint]),
        List.dropWhile_cons_of_neg (by simp [hpoint]), fractionSpelling_point more hfraction,
        List.append_nil]
      exact ⟨more.takeWhile Text.isDigit, by simp⟩

/-- A string that is closed at the front of a text is read. -/
theorem stringSpelling?_append {body : List Char} (more : List Char)
    (h : ∀ d ∈ body, isStringCharacter d = true) :
    stringSpelling? (body ++ Text.quotationMark :: more) =
      some (Text.quotationMark :: (body ++ [Text.quotationMark])) := by
  have hquote : isStringCharacter Text.quotationMark = false := by decide
  have htake : (body ++ Text.quotationMark :: more).takeWhile isStringCharacter = body := by
    rw [List.takeWhile_append_of_pos h, List.takeWhile_cons_of_neg (by simp [hquote]),
      List.append_nil]
  have hdrop : (body ++ Text.quotationMark :: more).dropWhile isStringCharacter =
      Text.quotationMark :: more := by
    rw [List.dropWhile_append_of_pos h, List.dropWhile_cons_of_neg (by simp [hquote])]
  rw [stringSpelling?, hdrop, htake, List.head?_cons, if_pos rfl]
  rfl

/-- No operator at the front of a text is longer than the one that is read. -/
theorem exists_operator? {kind : Terminal} {spelling text : List Char}
    (hmem : (String.ofList spelling, kind) ∈ Terminal.operators) (hfront : spelling <+: text) :
    ∃ lexeme, operator? text = some lexeme ∧ spelling.length ≤ lexeme.spelling.length := by
  have hlengths : ∀ entry ∈ Terminal.operators,
      entry.1.toList.length = 1 ∨ entry.1.toList.length = 2 := by decide
  have hlength := hlengths _ hmem
  rw [String.toList_ofList] at hlength
  have htake : text.take spelling.length = spelling := (List.prefix_iff_eq_take.1 hfront).symm
  have hfound : operatorOf? text spelling.length = some ⟨kind, spelling⟩ := by
    rw [operatorOf?, htake, Terminal.operator?_eq_some_iff.2 hmem]
    rfl
  cases htwo : operatorOf? text 2 with
  | some lexeme =>
      obtain ⟨other, -, rfl⟩ := Option.map_eq_some_iff.1 htwo
      refine ⟨⟨other, text.take 2⟩, by simp only [operator?, List.findSome?_cons, htwo], ?_⟩
      have hle := hfront.length_le
      rw [List.length_take]
      omega
  | none =>
      rcases hlength with hone | htwo'
      · rw [hone] at hfound
        refine ⟨⟨kind, spelling⟩, ?_, Nat.le_refl _⟩
        simp only [operator?, List.findSome?_cons, htwo, hfound]
      · rw [htwo', htwo] at hfound
        cases hfound

/-- **No lexeme at the front of a text is longer than the one that is read**, and one as long is
that one. -/
theorem exists_read_of_spells {kind : Terminal} {text : String} {spelling : List Char} {c : Char}
    {rest : List Char} (h : Spells kind text spelling) (hfront : spelling <+: c :: rest) :
    ∃ lexeme, read c rest = .ok lexeme ∧ spelling.length ≤ lexeme.spelling.length ∧
      (lexeme.spelling = spelling → lexeme.kind = kind) := by
  obtain ⟨first, more, rfl, hclass⟩ := h.exists_class
  obtain ⟨rfl, hmore⟩ := List.cons_prefix_cons.1 hfront
  unfold read
  cases hclass with
  | word halpha hword htext hkind =>
      rw [if_pos halpha]
      refine ⟨_, rfl, (isPrefix_wordSpelling hword hfront).length_le, ?_⟩
      intro hsame
      rw [hkind, ← String.ofList_toList (s := text), htext, ← hsame]
  | number halpha hdigit hnumber _ hkind =>
      rw [if_neg (by simp [halpha]), if_pos hdigit]
      exact ⟨_, rfl, (isPrefix_numberSpelling hnumber hfront).length_le, fun _ => hkind.symm⟩
  | string hquote hbody hall hkind =>
      have halpha : first.isAlpha = false := by rw [hquote]; decide
      have hdigit : Text.isDigit first = false := by rw [hquote]; decide
      obtain ⟨after, rfl⟩ := hmore
      have hread := stringSpelling?_append after hall
      rw [if_neg (by simp [halpha]), if_neg (by simp [hdigit]), if_pos hquote, hbody,
        List.append_assoc, List.singleton_append, hread]
      exact ⟨_, rfl, Nat.le_refl _, fun _ => hkind.symm⟩
  | operator halpha hdigit hquote htext hmem =>
      rw [if_neg (by simp [halpha]), if_neg (by simp [hdigit]), if_neg hquote]
      rw [← String.ofList_toList (s := text), htext] at hmem
      obtain ⟨lexeme, hoperator, hle⟩ := exists_operator? hmem hfront
      rw [hoperator]
      refine ⟨lexeme, rfl, hle, ?_⟩
      intro hsame
      have hkind := Terminal.operator?_eq_some_iff.2 (mem_of_operator? hoperator)
      rw [hsame, Terminal.operator?_eq_some_iff.2 hmem] at hkind
      exact (Option.some.inj hkind).symm

/-! ### The longest lexeme -/

/-- What is read is the longest lexeme. -/
theorem longest_of_read {c : Char} {rest : List Char} {lexeme : Lexeme}
    (h : read c rest = .ok lexeme) : Longest lexeme.spelling (c :: rest) where
  isPrefix := spelling_isPrefix h
  length_le := by
    rintro other hfront ⟨kind, text, hother⟩
    obtain ⟨lexeme', hread, hle, -⟩ := exists_read_of_spells hother hfront
    rw [h] at hread
    cases hread
    exact hle

/-- **The longest lexeme is what is read.** -/
theorem read_of_longest {kind : Terminal} {text : String} {spelling : List Char} {c : Char}
    {rest : List Char} (h : Spells kind text spelling) (hlongest : Longest spelling (c :: rest)) :
    read c rest = .ok ⟨kind, spelling⟩ := by
  obtain ⟨lexeme, hread, hle, hkind⟩ := exists_read_of_spells h hlongest.isPrefix
  obtain ⟨text', hspells⟩ := exists_spells_of_read hread
  have hge := hlongest.length_le _ (spelling_isPrefix hread) ⟨_, _, hspells⟩
  have hfront := List.prefix_of_prefix_length_le (spelling_isPrefix hread) hlongest.isPrefix hge
  have hsame := hfront.eq_of_length (Nat.le_antisymm hge hle)
  rw [hread, ← hkind hsame, ← hsame]

/-- The fault of a character that no lexeme starts at. -/
def faultAt (c : Char) : Fault :=
  if c = Text.quotationMark then .unterminatedString else .strayCharacter c

/-- Reading fails with the fault of the first character. -/
theorem fault_of_read {c : Char} {rest : List Char} {fault : Fault}
    (h : read c rest = .error fault) : fault = faultAt c := by
  unfold read at h
  split at h
  · cases h
  split at h
  · cases h
  split at h
  · next hquote =>
      split at h
      · cases h
      · cases h
        rw [faultAt, if_pos hquote]
  · next hquote =>
      split at h
      · cases h
      · cases h
        rw [faultAt, if_neg hquote]

/-- **Where no lexeme stands, the first character is at fault.** -/
theorem read_of_none {c : Char} {rest : List Char}
    (h : ∀ spelling, spelling <+: c :: rest → ¬ IsLexeme spelling) :
    read c rest = .error (faultAt c) := by
  cases hread : read c rest with
  | ok lexeme =>
      obtain ⟨text, hspells⟩ := exists_spells_of_read hread
      exact absurd ⟨_, _, hspells⟩ (h _ (spelling_isPrefix hread))
  | error fault => rw [fault_of_read hread]

end Lexeme

/-- A text is its own longest prefix. -/
theorem Longest.self (spelling : List Char) : Longest spelling spelling :=
  ⟨List.prefix_refl _, fun _ hfront _ => hfront.length_le⟩

/-- **A lexeme spells one token.** -/
theorem Spells.unique {kind kind' : Terminal} {text text' : String} {spelling : List Char}
    (h : Spells kind text spelling) (h' : Spells kind' text' spelling) :
    kind = kind' ∧ text = text' := by
  obtain ⟨c, rest, rfl, -⟩ := h.exists_class
  have hlongest := Longest.self (c :: rest)
  have hread := Lexeme.read_of_longest h hlongest
  rw [Lexeme.read_of_longest h' hlongest] at hread
  have hkind : kind' = kind := congrArg Lexeme.kind (Except.ok.inj hread)
  refine ⟨hkind.symm, ?_⟩
  rw [← Lexeme.text_of_spells h, ← Lexeme.text_of_spells h', hkind]

/-- No lexeme spells the sentinel. -/
theorem Spells.kind_ne_eof {kind : Terminal} {text : String} {spelling : List Char}
    (h : Spells kind text spelling) : kind ≠ .eof := by
  have hkeywords : ∀ entry ∈ Terminal.keywords, entry.2 ≠ .eof := by decide
  have hoperators : ∀ entry ∈ Terminal.operators, entry.2 ≠ .eof := by decide
  cases h with
  | keyword hmem => exact hkeywords _ hmem
  | identifier | number | string => exact Terminal.noConfusion
  | operator hmem => exact hoperators _ hmem

/-! ### The characters of lexemes -/

/-- No digit is blank. -/
theorem Text.isBlank_eq_false_of_isDigit {c : Char} (h : Text.isDigit c = true) :
    Text.isBlank c = false := by
  have hapart : ∀ range ∈ Text.blankRanges, ∀ first ∈ Text.decimalZeros,
      range.2 < first ∨ first + 10 ≤ range.1 := by decide
  simp only [Text.isDigit, List.any_eq_true, Bool.and_eq_true, decide_eq_true_eq] at h
  obtain ⟨first, hfirst, hle, hlt⟩ := h
  rw [Bool.eq_false_iff]
  intro hblank
  obtain ⟨range, hrange, hlow, hhigh⟩ := (Text.blankRanges.covers_iff c).1 hblank
  have := hapart range hrange first hfirst
  omega

/-- No lexeme starts with a blank. -/
theorem Spells.isBlank_first {kind : Terminal} {text : String} {c : Char} {rest : List Char}
    (h : Spells kind text (c :: rest)) : Text.isBlank c = false := by
  obtain ⟨first, more, hsplit, hclass⟩ := h.exists_class
  obtain ⟨rfl, rfl⟩ := List.cons.inj hsplit
  cases hclass with
  | word halpha =>
      have hletter := Text.isAlpha_cases halpha
      exact Text.isBlank_eq_false_of_ascii (by omega) (by omega)
  | number _ hdigit => exact Text.isBlank_eq_false_of_isDigit hdigit
  | string hquote =>
      rw [hquote]
      decide
  | operator _ _ _ htext hmem =>
      have hfirst : ∀ entry ∈ Terminal.operators,
          entry.1.toList.head?.all fun c => Text.isBlank c = false := by decide
      have hblank := hfirst _ hmem
      rw [htext] at hblank
      simpa using hblank

/-- No digit is a line feed. -/
theorem IsDigits.newline_not_mem {digits : List Char} (h : IsDigits digits) : '\n' ∉ digits := by
  intro hmem
  have hnone : Text.isDigit '\n' = false := by decide
  rw [h.2 _ hmem] at hnone
  cases hnone

/-- No lexeme holds a line feed. -/
theorem Spells.newline_not_mem {kind : Terminal} {text : String} {spelling : List Char}
    (h : Spells kind text spelling) : '\n' ∉ spelling := by
  obtain ⟨c, rest, rfl, hclass⟩ := h.exists_class
  cases hclass with
  | word halpha hword =>
      obtain ⟨first, more, hsplit, halpha', hmore⟩ := hword
      rw [hsplit]
      intro hmem
      rcases List.mem_cons.1 hmem with hfirst | hmem
      · rw [← hfirst] at halpha'
        cases halpha'
      · exact absurd (hmore _ hmem) (by decide)
  | number _ _ hnumber =>
      generalize hspelling : c :: rest = number at hnumber
      cases hnumber with
      | whole hdigits => exact hdigits.newline_not_mem
      | decimal hdigits hfraction =>
          intro hmem
          rcases List.mem_append.1 hmem with hmem | hmem
          · exact hdigits.newline_not_mem hmem
          · rcases List.mem_cons.1 hmem with hpoint | hmem
            · cases hpoint
            · exact hfraction.newline_not_mem hmem
  | string hquote hbody hall =>
      rw [hbody]
      intro hmem
      rcases List.mem_cons.1 hmem with hfirst | hmem
      · rw [hquote] at hfirst
        cases hfirst
      · rcases List.mem_append.1 hmem with hmem | hmem
        · exact absurd (hall _ hmem) (by decide)
        · exact absurd (List.mem_singleton.1 hmem) (by decide)
  | operator _ _ _ htext hmem =>
      have hnone : ∀ entry ∈ Terminal.operators, '\n' ∉ entry.1.toList := by decide
      rw [← htext]
      exact hnone _ hmem

/-- **A text starts with a longest lexeme**, unless it starts with none. -/
theorem exists_longest_or_none (text : List Char) :
    (∃ kind content spelling, Spells kind content spelling ∧ Longest spelling text) ∨
      ∀ spelling, spelling <+: text → ¬ IsLexeme spelling := by
  cases text with
  | nil =>
      right
      rintro spelling hfront ⟨kind, content, hspells⟩
      obtain ⟨c, rest, rfl, -⟩ := hspells.exists_class
      exact absurd (List.prefix_nil.1 hfront) (List.cons_ne_nil c rest)
  | cons c rest =>
      cases hread : Lexeme.read c rest with
      | ok lexeme =>
          obtain ⟨content, hspells⟩ := Lexeme.exists_spells_of_read hread
          exact .inl ⟨_, content, _, hspells, Lexeme.longest_of_read hread⟩
      | error fault =>
          right
          rintro spelling hfront ⟨kind, content, hspells⟩
          obtain ⟨lexeme, hok, -⟩ := Lexeme.exists_read_of_spells hspells hfront
          rw [hread] at hok
          cases hok

end SccSharp
