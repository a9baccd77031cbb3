import SccSharp.Text.Lines
import SccSharp.Text.Utf8

/-!
# Readings

A source is read line by line, and a read may fail. What successive reads give is written down
beforehand as a list of readings, so that running a source is a function of that list.

A text gives its lines. Bytes give the lines of the text they decode to; what ends a line is a
parameter, since files know three kinds of line ends and the standard input only the line feed.
Bytes arrive in chunks, and a read fails if it needs a chunk that is not UTF-8, or meets the end of
the bytes inside a character. The lines that are ended before that can still be read.

## Main Definitions

* `Reading` — a line, or a failure
* `Reading.ofText` — the readings of a text
* `Reading.ofChunks`, `Reading.ofBytes` — the readings of bytes, as they arrive and by themselves
-/

namespace SccSharp

/-- Why a line could not be read. -/
inductive ReadFailure where
  /-- The system refused, with this text. -/
  | system (text : String)
  /-- The bytes are not UTF-8. -/
  | notUtf8
  deriving DecidableEq, Repr

/-- What one read of a line gives. The empty line stands for the end of the source. -/
inductive Reading where
  | line (text : List Char)
  | failure (reason : ReadFailure)
  deriving DecidableEq, Repr

namespace Reading

/-- The number of characters a reading brings. -/
def size : Reading → Nat
  | line text => text.length
  | failure _ => 0

/-- The number of characters some readings bring. -/
def totalSize : List Reading → Nat
  | [] => 0
  | reading :: rest => reading.size + totalSize rest

/-- The readings of a text. -/
def ofText (text : List Char) : List Reading :=
  (Text.lines text).map line

/-- The readings of a text that is broken off: the lines that are ended, then a failure. -/
def ofBroken (newlines : Text.Newlines) (text : List Char) : List Reading :=
  ((Text.lines (newlines.read (newlines.certain text))).filter Text.endsLine).map line ++
    [failure .notUtf8]

/-- **The readings of bytes that arrive in chunks.** -/
def ofChunks (newlines : Text.Newlines) (chunks : List (List UInt8)) : List Reading :=
  match Text.Utf8.decode chunks with
  | .whole text => ofText (newlines.read text)
  | .broken text => ofBroken newlines text

/-- The number of bytes that are asked for at a time. -/
def chunkSize : Nat :=
  8192

/-- The readings of bytes, each chunk of which is as long as it is asked for. -/
def ofBytes (bytes : List UInt8) (newlines : Text.Newlines := .universal) : List Reading :=
  ofChunks newlines (Text.Utf8.chunks chunkSize bytes)

end Reading

end SccSharp
