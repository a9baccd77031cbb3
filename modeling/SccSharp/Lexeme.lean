import SccSharp.Diagnostic
import SccSharp.Text.Blank
import SccSharp.Text.Digit

/-!
# Lexemes

The piece of text that a token is read from. The character a text starts with decides the class of
its first lexeme; within the class the longest one is taken.

* a word: an ASCII letter, then ASCII letters, ASCII digits and underscores;
* a number: decimal digits, and a point with more of them if a digit follows the point;
* a string: a quotation mark, characters other than it and the line feed, a quotation mark;
* an operator: one of `Terminal.operators`, of two characters before one of one.

## Main Definitions

* `Lexeme` — a symbol and its spelling
* `Lexeme.read` — the first lexeme of a text that starts with no blank
-/

namespace SccSharp

/-- A terminal symbol and the characters it is spelled with in the source. -/
structure Lexeme where
  kind : Terminal
  spelling : List Char
  deriving DecidableEq, Repr

namespace Lexeme

/-- The text of the token: the spelling, without its quotes for a string. -/
def text (l : Lexeme) : String :=
  String.ofList (if l.kind = .stringConstant then l.spelling.tail.dropLast else l.spelling)

/-! ### Spellings at the front of a text -/

/-- Whether a character may stand in a word after its first letter. -/
def isWordCharacter (c : Char) : Bool :=
  c.isAlphanum || c == '_'

/-- The word at the front of a text. -/
def wordSpelling (text : List Char) : List Char :=
  text.takeWhile isWordCharacter

/-- The fraction at the front of a text: a point and digits, or nothing. -/
def fractionSpelling : List Char → List Char
  | '.' :: rest =>
      match rest.takeWhile Text.isDigit with
      | [] => []
      | digits => '.' :: digits
  | _ => []

/-- The number at the front of a text. -/
def numberSpelling (text : List Char) : List Char :=
  text.takeWhile Text.isDigit ++ fractionSpelling (text.dropWhile Text.isDigit)

/-- Whether a character may stand between the quotes of a string. -/
def isStringCharacter (c : Char) : Bool :=
  c != Text.quotationMark && c != '\n'

/-- The string whose opening quote has been read, with both quotes, if it is closed. -/
def stringSpelling? (rest : List Char) : Option (List Char) :=
  if (rest.dropWhile isStringCharacter).head? = some Text.quotationMark then
    some (Text.quotationMark :: rest.takeWhile isStringCharacter ++ [Text.quotationMark])
  else none

/-- The operator spelled by the first `length` characters of a text. -/
def operatorOf? (text : List Char) (length : Nat) : Option Lexeme :=
  (Terminal.operator? (String.ofList (text.take length))).map (⟨·, text.take length⟩)

/-- The longest operator at the front of a text. -/
def operator? (text : List Char) : Option Lexeme :=
  [2, 1].findSome? (operatorOf? text)

/-! ### The first lexeme -/

/-- **The first lexeme** of the text `c :: rest`. -/
def read (c : Char) (rest : List Char) : Except Fault Lexeme :=
  if c.isAlpha then
    let spelling := wordSpelling (c :: rest)
    .ok ⟨.ofWord (String.ofList spelling), spelling⟩
  else if Text.isDigit c then
    .ok ⟨.numberConstant, numberSpelling (c :: rest)⟩
  else if c = Text.quotationMark then
    match stringSpelling? rest with
    | some spelling => .ok ⟨.stringConstant, spelling⟩
    | none => .error .unterminatedString
  else
    match operator? (c :: rest) with
    | some lexeme => .ok lexeme
    | none => .error (.strayCharacter c)

/-! ### A lexeme is a nonempty part of the text -/

theorem fractionSpelling_isPrefix (text : List Char) : fractionSpelling text <+: text := by
  unfold fractionSpelling
  split
  · next rest =>
      split
      · exact List.nil_prefix
      · exact List.cons_prefix_cons.2 ⟨rfl, List.takeWhile_prefix _⟩
  · exact List.nil_prefix

theorem numberSpelling_isPrefix (text : List Char) : numberSpelling text <+: text := by
  have h := (List.prefix_append_right_inj (text.takeWhile Text.isDigit)).2
    (fractionSpelling_isPrefix (text.dropWhile Text.isDigit))
  rwa [List.takeWhile_append_dropWhile] at h

theorem stringSpelling?_isPrefix {rest spelling : List Char}
    (h : stringSpelling? rest = some spelling) :
    spelling <+: Text.quotationMark :: rest := by
  unfold stringSpelling? at h
  split at h
  · next hd =>
      cases h
      obtain ⟨more, hmore⟩ := List.head?_eq_some_iff.1 hd
      refine ⟨more, ?_⟩
      have := List.takeWhile_append_dropWhile (p := isStringCharacter) (l := rest)
      rw [hmore] at this
      simp [this]
  · cases h

theorem operator?_eq_some {text : List Char} {lexeme : Lexeme}
    (h : operator? text = some lexeme) : ∃ n, lexeme.spelling = text.take (n + 1) := by
  simp only [operator?, List.findSome?_eq_some_iff, operatorOf?] at h
  obtain ⟨before, n, after, hsplit, hn, -⟩ := h
  obtain ⟨kind, -, rfl⟩ := Option.map_eq_some_iff.1 hn
  have hmem : n ∈ [2, 1] := by rw [hsplit]; simp
  rcases List.mem_cons.1 hmem with rfl | hmem
  · exact ⟨1, rfl⟩
  · exact ⟨0, by rw [List.mem_singleton.1 hmem]⟩

/-- The spelling of the first lexeme stands at the front of the text. -/
theorem spelling_isPrefix {c : Char} {rest : List Char} {lexeme : Lexeme}
    (h : read c rest = .ok lexeme) : lexeme.spelling <+: c :: rest := by
  unfold read at h
  split at h
  · cases h
    exact List.takeWhile_prefix _
  split at h
  · cases h
    exact numberSpelling_isPrefix _
  split at h
  · next hq =>
      split at h
      · next hs =>
          cases h
          exact hq ▸ stringSpelling?_isPrefix hs
      · cases h
  · split at h
    · next ho =>
        cases h
        obtain ⟨n, hn⟩ := operator?_eq_some ho
        exact hn ▸ List.take_prefix _ _
    · cases h

/-- The first lexeme takes at least one character. -/
theorem spelling_ne_nil {c : Char} {rest : List Char} {lexeme : Lexeme}
    (h : read c rest = .ok lexeme) : lexeme.spelling ≠ [] := by
  unfold read at h
  split at h
  · next hc =>
      cases h
      simp [wordSpelling, isWordCharacter, Char.isAlphanum, hc]
  split at h
  · next hc =>
      cases h
      simp [numberSpelling, hc]
  split at h
  · split at h
    · next hs =>
        cases h
        unfold stringSpelling? at hs
        split at hs <;> cases hs
        simp
    · cases h
  · split at h
    · next ho =>
        cases h
        obtain ⟨n, hn⟩ := operator?_eq_some ho
        simp [hn]
    · cases h

end Lexeme

end SccSharp
