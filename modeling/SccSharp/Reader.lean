import SccSharp.Feed
import SccSharp.Lexeme
import SccSharp.Reading

/-!
# Readers

A reader turns lines into tokens on demand. It holds one line at a time and reads the next one only
when nothing but blanks is left of it.

Three rules follow from that and hold for whatever the reads give.

* A failed read is used up and changes nothing else, so that drawing again goes on with the next.
* A malformed lexeme stays where it is: drawing again reports it again and reads nothing.
* The end of the source is final: the sentinel is given for ever and nothing is read any more.

## Main Definitions

* `Reader` — the lines still to be read and the place in the current one
* `Reader.draw` — the next token
* `Reader.ofText`, `Reader.ofBytes` — readers over a text and over a file
-/

namespace SccSharp

/-- **A place in the lines read**: how many there are, how many characters of the last one have
been passed, and what is left of it. -/
structure Place where
  linesRead : Nat := 0
  column : Nat := 0
  rest : List Char := []
  deriving DecidableEq, Repr

namespace Place

/-- The place after a number of characters. -/
def pass (p : Place) (count : Nat) : Place :=
  { p with column := p.column + count, rest := p.rest.drop count }

/-- The place after the blanks. -/
def skipBlanks (p : Place) : Place :=
  p.pass (p.rest.takeWhile Text.isBlank).length

/-- The start of a line that has just been read. -/
def startLine (p : Place) (text : List Char) : Place :=
  ⟨p.linesRead + 1, 0, text⟩

/-- Passing characters leaves no more than there was. -/
theorem length_pass_le (p : Place) (count : Nat) :
    (p.pass count).rest.length ≤ p.rest.length := by
  simp [pass]

end Place

/-- Why a reader gives no token. -/
inductive SourceFailure where
  /-- The text holds no lexeme here. -/
  | malformed (report : Diagnostic)
  /-- The text could not be read. -/
  | unreadable (reason : ReadFailure)
  deriving DecidableEq, Repr

/-- A source in the course of being cut into tokens. -/
structure Reader where
  file : String
  script : List Reading
  place : Place := {}
  ended : Bool := false
  deriving DecidableEq, Repr

/-! ### Finding text -/

/-- What comes next in a source. -/
inductive Arrival where
  /-- Text that starts with the character `c`, which is no blank. -/
  | text (c : Char) (rest : List Char)
  /-- A read that fails. -/
  | failed (reason : ReadFailure)
  /-- The end of the source. -/
  | ended
  deriving DecidableEq, Repr

/-- **Seeking text**: skips blanks and reads lines until text, a failure or the end arrives. Gives
the arrival, the place reached and the readings left. -/
def seek (place : Place) : List Reading → Arrival × Place × List Reading
  | [] =>
      match place.skipBlanks.rest with
      | c :: rest => (.text c rest, place.skipBlanks, [])
      | [] => (.ended, place.skipBlanks, [])
  | reading :: script =>
      match place.skipBlanks.rest with
      | c :: rest => (.text c rest, place.skipBlanks, reading :: script)
      | [] =>
          match reading with
          | .failure reason => (.failed reason, place.skipBlanks, script)
          | .line [] => (.ended, place.skipBlanks, script)
          | .line text => seek (place.startLine text) script

/-- Text that arrives is what is left of the line at the place reached. -/
theorem seek_text {place place' : Place} {script script' : List Reading} {c : Char}
    {rest : List Char} (h : seek place script = (.text c rest, place', script')) :
    place'.rest = c :: rest := by
  induction script generalizing place with
  | nil =>
      unfold seek at h
      split at h
      · next heq =>
          cases h
          exact heq
      · cases h
  | cons reading script ih =>
      unfold seek at h
      split at h
      · next heq =>
          cases h
          exact heq
      · split at h
        · cases h
        · cases h
        · exact ih h

/-- Seeking makes no text. -/
theorem seek_size_le (place : Place) (script : List Reading) :
    (seek place script).2.1.rest.length + Reading.totalSize (seek place script).2.2 ≤
      place.rest.length + Reading.totalSize script := by
  have skipped (p : Place) : p.skipBlanks.rest.length ≤ p.rest.length := p.length_pass_le _
  induction script generalizing place with
  | nil =>
      have := skipped place
      unfold seek
      split <;> simpa using this
  | cons reading script ih =>
      have := skipped place
      unfold seek
      split
      · simp only [Reading.totalSize]
        omega
      · split
        · simp only [Reading.totalSize]
          omega
        · simp only [Reading.totalSize]
          omega
        · next text _ =>
            have h := ih (place.startLine text)
            simp only [Reading.totalSize, Reading.size, Place.startLine] at h ⊢
            omega

/-! ### Drawing tokens -/

namespace Reader

/-- The line a reader stands on: the number of lines read. The end of a source without lines is on
line one. -/
def line (r : Reader) : Nat :=
  if r.ended then max r.place.linesRead 1 else r.place.linesRead

/-- The location of the next character. -/
def location (r : Reader) : Location :=
  ⟨r.file, r.line, r.place.column + 1⟩

/-- The reader after seeking. -/
def arrive (r : Reader) (place : Place) (script : List Reading) : Reader :=
  { r with place := place, script := script }

/-- The next token, or why there is none. -/
def draw (r : Reader) : Except SourceFailure Token × Reader :=
  if r.ended then (.ok (.endOfInput r.line), r)
  else
    match seek r.place r.script with
    | (.ended, place, script) =>
        let r := { r.arrive place script with ended := true }
        (.ok (.endOfInput r.line), r)
    | (.failed reason, place, script) => (.error (.unreadable reason), r.arrive place script)
    | (.text c rest, place, script) =>
        let r := r.arrive place script
        match Lexeme.read c rest with
        | .error fault => (.error (.malformed (fault.diagnostic r.location)), r)
        | .ok lexeme =>
            (.ok ⟨lexeme.kind, lexeme.text, r.line⟩,
              { r with place := r.place.pass lexeme.spelling.length })

/-- The number of characters that no token has been made of. -/
def size (r : Reader) : Nat :=
  r.place.rest.length + Reading.totalSize r.script

/-- A draw makes no text. -/
theorem size_draw_le (r : Reader) : r.draw.2.size ≤ r.size := by
  have h := seek_size_le r.place r.script
  unfold draw
  split
  · exact Nat.le_refl _
  · split
    · next heq => simpa [size, arrive, heq] using h
    · next heq => simpa [size, arrive, heq] using h
    · next c rest place script heq =>
        rw [heq] at h
        dsimp only at h ⊢
        split
        · exact h
        · next lexeme _ =>
            have := place.length_pass_le lexeme.spelling.length
            simp only [size, arrive] at h ⊢
            omega

/-- A token takes text. -/
theorem size_draw_lt (r : Reader) (t : Token) (drawn : r.draw.1 = .ok t) (more : t.kind ≠ .eof) :
    r.draw.2.size < r.size := by
  have h := seek_size_le r.place r.script
  unfold draw at drawn ⊢
  split at drawn
  · cases drawn
    exact absurd rfl more
  · next hended =>
      rw [if_neg hended]
      split at drawn
      · cases drawn
        exact absurd rfl more
      · cases drawn
      · next c rest place script heq =>
          rw [heq] at h
          dsimp only at h drawn ⊢
          split at drawn
          · cases drawn
          · next lexeme hread =>
              have hrest := seek_text heq
              have hne := List.length_pos_iff.2 (Lexeme.spelling_ne_nil hread)
              have hpos : 0 < place.rest.length := by rw [hrest]; exact Nat.succ_pos _
              simp only [size, arrive, Place.pass, List.length_drop] at h ⊢
              omega

instance : Feed Reader SourceFailure where
  draw := draw
  size := size
  size_draw_le := size_draw_le
  size_draw_lt := size_draw_lt

/-- The reader over a text. -/
def ofText (text : String) (file : String := "<string>") : Reader :=
  { file := file, script := Reading.ofText text.toList }

/-- The reader over the bytes of a file. -/
def ofBytes (bytes : List UInt8) (file : String) : Reader :=
  { file := file, script := Reading.ofBytes bytes }

end Reader

end SccSharp
