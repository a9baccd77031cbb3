import SccSharp.Text.Printable

/-!
# Quoted text

A text between quotes, with every character that cannot be shown written as an escape. The quotes
are apostrophes, unless the text holds an apostrophe and no quotation mark.

## Main Definitions

* `quoted` — the quoted form of a text
* `hexadecimal` — a code point in base sixteen, padded with zeros
-/

namespace SccSharp.Text

/-- The single quote, `U+0027`. -/
def apostrophe : Char := '\x27'

/-- The double quote, `U+0022`. -/
def quotationMark : Char := '\x22'

/-- The lower-case digits of a number in base sixteen, at least `width` of them. -/
def hexadecimal (width n : Nat) : List Char :=
  (Nat.toDigits 16 n).leftpad width '0'

/-- The quote that a text is written between. -/
def quoteOf (text : List Char) : Char :=
  if text.contains apostrophe && !text.contains quotationMark then quotationMark else apostrophe

/-- **One character between quotes**: the quote and the backslash after a backslash, the three
common controls by letter, other unprintable characters by the shortest of three numeric escapes. -/
def escaped (quote c : Char) : List Char :=
  if c = quote ∨ c = '\\' then ['\\', c]
  else if c = '\n' then ['\\', 'n']
  else if c = '\r' then ['\\', 'r']
  else if c = '\t' then ['\\', 't']
  else if isPrintable c then [c]
  else if c.toNat < 0x100 then '\\' :: 'x' :: hexadecimal 2 c.toNat
  else if c.toNat < 0x10000 then '\\' :: 'u' :: hexadecimal 4 c.toNat
  else '\\' :: 'U' :: hexadecimal 8 c.toNat

/-- The quoted form of a text. -/
def quoted (text : String) : String :=
  let quote := quoteOf text.toList
  String.ofList (quote :: text.toList.flatMap (escaped quote) ++ [quote])

end SccSharp.Text
