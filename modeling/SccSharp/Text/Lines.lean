/-!
# Lines

Texts cut into lines. A line keeps the line feed that ends it, so that the lines of a text put
together again are the text; only the last line may lack one.

## Main Definitions

* `lines` — the lines of a text
* `endsLine` — whether a line is ended by a line feed
* `unifyNewlines` — a text with its three kinds of line ends made one
* `Newlines` — what counts as the end of a line
-/

namespace SccSharp.Text

/-- A character put in front of a text that is cut into lines. -/
def consLine (c : Char) (rest : List (List Char)) : List (List Char) :=
  if c = '\n' then ['\n'] :: rest
  else match rest with
    | [] => [[c]]
    | line :: more => (c :: line) :: more

/-- The lines of a text. -/
def lines (text : List Char) : List (List Char) :=
  text.foldr consLine []

/-- The lines of a text put together are the text. -/
theorem flatten_lines (text : List Char) : (lines text).flatten = text := by
  induction text with
  | nil => rfl
  | cons c rest ih =>
      change (consLine c (lines rest)).flatten = c :: rest
      unfold consLine
      split
      · next h => simp [h, ih]
      · split <;> simp_all

/-- No line is empty. -/
theorem ne_nil_of_mem_lines {line text : List Char} (h : line ∈ lines text) : line ≠ [] := by
  induction text generalizing line with
  | nil => cases h
  | cons c rest ih =>
      change line ∈ consLine c (lines rest) at h
      unfold consLine at h
      split at h
      · rcases List.mem_cons.1 h with rfl | h
        · simp
        · exact ih h
      · split at h
        · simp_all
        · next l more heq =>
            rcases List.mem_cons.1 h with rfl | h
            · simp
            · exact ih (heq ▸ List.mem_cons_of_mem l h)

/-- Whether a line is ended by a line feed. -/
def endsLine (line : List Char) : Bool :=
  line.getLast? == some '\n'

/-! ### Line ends -/

/-- A character put in front of a text whose line ends are unified; `next` is the character that
stood there before. -/
def consUnified (c : Char) (rest : List Char × Option Char) : List Char × Option Char :=
  if c = '\r' then
    if rest.2 = some '\n' then (rest.1, some c) else ('\n' :: rest.1, some c)
  else (c :: rest.1, some c)

/-- **One kind of line end**: a carriage return in front of a line feed is dropped and any other
becomes a line feed. -/
def unifyNewlines (text : List Char) : List Char :=
  (text.foldr consUnified ([], none)).1

/-- The character remembered is the first of the text. -/
private theorem foldr_consUnified_snd (text : List Char) :
    (text.foldr consUnified ([], none)).2 = text.head? := by
  cases text with
  | nil => rfl
  | cons c rest =>
      simp only [List.foldr_cons, consUnified, List.head?_cons]
      split
      · split <;> rfl
      · rfl

@[simp] theorem unifyNewlines_nil : unifyNewlines [] = [] := rfl

/-- The rule at the front of a text. -/
theorem unifyNewlines_cons (c : Char) (rest : List Char) :
    unifyNewlines (c :: rest) =
      if c = '\r' then
        if rest.head? = some '\n' then unifyNewlines rest else '\n' :: unifyNewlines rest
      else c :: unifyNewlines rest := by
  simp only [unifyNewlines, List.foldr_cons, consUnified, foldr_consUnified_snd]
  split
  · split <;> rfl
  · rfl

/-- A text whose line ends are unified has no carriage return. -/
theorem not_mem_unifyNewlines (text : List Char) : '\r' ∉ unifyNewlines text := by
  induction text with
  | nil => exact List.not_mem_nil
  | cons c rest ih =>
      rw [unifyNewlines_cons]
      split
      · split
        · exact ih
        · exact List.not_mem_cons_of_ne_of_not_mem (by decide) ih
      · next hc => exact List.not_mem_cons_of_ne_of_not_mem (Ne.symm hc) ih

/-- A text without carriage returns has its line ends unified. -/
theorem unifyNewlines_of_not_mem {text : List Char} (h : '\r' ∉ text) :
    unifyNewlines text = text := by
  induction text with
  | nil => rfl
  | cons c rest ih =>
      rw [unifyNewlines_cons, if_neg (Ne.symm (List.ne_of_not_mem_cons h)),
        ih (List.not_mem_of_not_mem_cons h)]

/-- What counts as the end of a line. -/
inductive Newlines where
  /-- A line feed, a carriage return, or the two in a row. Each is made a line feed. -/
  | universal
  /-- A line feed alone. Carriage returns are kept. -/
  | lineFeed
  deriving DecidableEq, Repr

namespace Newlines

/-- A text as it is read. -/
def read : Newlines → List Char → List Char
  | universal, text => unifyNewlines text
  | lineFeed, text => text

/-- What can be read of a text before more of it is known. A carriage return at the end does not end
its line yet, since a line feed might follow. -/
def certain : Newlines → List Char → List Char
  | universal, text => if text.getLast? = some '\r' then text.dropLast else text
  | lineFeed, text => text

end Newlines

end SccSharp.Text
