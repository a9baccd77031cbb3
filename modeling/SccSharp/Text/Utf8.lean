/-!
# UTF-8

The byte form of text. A decoder takes one byte at a time and remembers the character it is in the
middle of; it refuses a byte as soon as no character can hold it.

Bytes arrive in chunks, and a character may begin in one of them and end in another. A chunk is
decoded as a whole: of one in which a byte is refused nothing is read.

## Main Definitions

* `Utf8.encode` — the bytes of a text
* `Utf8.decode` — the text of chunks of bytes, whole or broken off
* `Utf8.chunks` — bytes cut into chunks
-/

namespace SccSharp.Text.Utf8

/-! ### Encoding -/

/-- The byte of a small number. -/
def byte (n : Nat) : UInt8 :=
  UInt8.ofNat n

/-- The bytes of a character: one to four, by the size of its code point. -/
def encodeChar (c : Char) : List UInt8 :=
  let n := c.toNat
  if n < 0x80 then [byte n]
  else if n < 0x800 then [byte (0xC0 + n / 0x40), byte (0x80 + n % 0x40)]
  else if n < 0x10000 then
    [byte (0xE0 + n / 0x1000), byte (0x80 + n / 0x40 % 0x40), byte (0x80 + n % 0x40)]
  else
    [byte (0xF0 + n / 0x40000), byte (0x80 + n / 0x1000 % 0x40), byte (0x80 + n / 0x40 % 0x40),
      byte (0x80 + n % 0x40)]

/-- The bytes of a text. -/
def encode (text : List Char) : List UInt8 :=
  text.flatMap encodeChar

/-! ### Decoding -/

/-- **A character begun**: `owed + 1` bytes are still to come, the next one between `low` and
`high`, and `value` holds the bits seen so far. -/
structure Begun where
  owed : Nat
  low : Nat
  high : Nat
  value : Nat
  deriving DecidableEq, Repr

/-- The decoder between two bytes: the characters read, last first, and the one begun. -/
structure Decoder where
  read : List Char := []
  begun : Option Begun := none
  deriving DecidableEq, Repr

/-- What a byte that opens a character of several bytes promises. -/
def Begun.ofLead? (b : Nat) : Option Begun :=
  if 0xC2 ≤ b ∧ b ≤ 0xDF then some ⟨0, 0x80, 0xBF, b - 0xC0⟩
  else if b = 0xE0 then some ⟨1, 0xA0, 0xBF, 0⟩
  else if b = 0xED then some ⟨1, 0x80, 0x9F, 0xD⟩
  else if 0xE1 ≤ b ∧ b ≤ 0xEF then some ⟨1, 0x80, 0xBF, b - 0xE0⟩
  else if b = 0xF0 then some ⟨2, 0x90, 0xBF, 0⟩
  else if b = 0xF4 then some ⟨2, 0x80, 0x8F, 4⟩
  else if 0xF1 ≤ b ∧ b ≤ 0xF3 then some ⟨2, 0x80, 0xBF, b - 0xF0⟩
  else none

/-- One byte more, or none where no character can hold it. -/
def Decoder.step (d : Decoder) (b : UInt8) : Option Decoder :=
  match d.begun with
  | none =>
      if b.toNat < 0x80 then some { d with read := Char.ofNat b.toNat :: d.read }
      else (Begun.ofLead? b.toNat).map fun begun => { d with begun := some begun }
  | some begun =>
      if begun.low ≤ b.toNat ∧ b.toNat ≤ begun.high then
        let value := begun.value * 0x40 + (b.toNat - 0x80)
        match begun.owed with
        | 0 => some ⟨Char.ofNat value :: d.read, none⟩
        | owed + 1 => some { d with begun := some ⟨owed, 0x80, 0xBF, value⟩ }
      else none

/-- What chunks of bytes decode to. -/
inductive Decoded where
  /-- Every byte belongs to a character of the text. -/
  | whole (text : List Char)
  /-- After the text comes a chunk with a byte that fits no character, or the bytes end in the
  middle of one. -/
  | broken (text : List Char)
  deriving DecidableEq, Repr

/-- The text of some more chunks. -/
def Decoder.decode (d : Decoder) : List (List UInt8) → Decoded
  | [] => if d.begun.isNone then .whole d.read.reverse else .broken d.read.reverse
  | chunk :: chunks =>
      match chunk.foldlM Decoder.step d with
      | some next => next.decode chunks
      | none => .broken d.read.reverse

/-- **The text of chunks of bytes.** -/
def decode (chunks : List (List UInt8)) : Decoded :=
  Decoder.decode {} chunks

/-! ### Chunks -/

/-- Bytes cut into chunks of a size, the first one of which has `room` left: what belongs to that
one, and the others. -/
def cut (size : Nat) : Nat → List UInt8 → List UInt8 × List (List UInt8)
  | _, [] => ([], [])
  | 0, b :: bytes =>
      let (chunk, more) := cut size (size - 1) bytes
      ([], (b :: chunk) :: more)
  | room + 1, b :: bytes =>
      let (chunk, more) := cut size room bytes
      (b :: chunk, more)

/-- **Bytes in chunks of a size**, the last one what is left over. -/
def chunks (size : Nat) (bytes : List UInt8) : List (List UInt8) :=
  let (chunk, more) := cut size size bytes
  chunk :: more

end SccSharp.Text.Utf8
