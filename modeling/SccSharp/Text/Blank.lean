import SccSharp.Text.Ranges

/-!
# Blank characters

What separates tokens: the characters with the White_Space property and the four information
separators, `U+001C` to `U+001F`.

## Main Definitions

* `isBlank` — whether a character is skipped between tokens
-/

namespace SccSharp.Text

/-- The code points of the blank characters. -/
def blankRanges : Ranges :=
  [(0x9, 0xD), (0x1C, 0x20), (0x85, 0x85), (0xA0, 0xA0), (0x1680, 0x1680), (0x2000, 0x200A),
    (0x2028, 0x2029), (0x202F, 0x202F), (0x205F, 0x205F), (0x3000, 0x3000)]

/-- Whether a character is blank. -/
def isBlank (c : Char) : Bool :=
  blankRanges.covers c

/-- A line feed is blank. -/
theorem isBlank_newline : isBlank '\n' = true := by decide

/-- A carriage return is blank. -/
theorem isBlank_return : isBlank '\r' = true := by decide

/-- Every ASCII blank is blank. -/
theorem isBlank_of_isWhitespace {c : Char} (h : c.isWhitespace = true) : isBlank c = true := by
  simp only [Char.isWhitespace, Bool.or_eq_true, decide_eq_true_eq] at h
  rcases h with ((rfl | rfl) | rfl) | rfl <;> decide

/-- A blank is a space, stands before it, or lies beyond ASCII. -/
theorem isBlank_cases {c : Char} (h : isBlank c = true) : c.toNat ≤ 0x20 ∨ 0x80 ≤ c.toNat := by
  have hranges : ∀ range ∈ blankRanges, range.2 ≤ 0x20 ∨ 0x80 ≤ range.1 := by decide
  obtain ⟨range, hmem, hfirst, hlast⟩ := (blankRanges.covers_iff c).1 h
  rcases hranges range hmem with hlow | hhigh
  · exact .inl (Nat.le_trans hlast hlow)
  · exact .inr (Nat.le_trans hhigh hfirst)

/-- A character that ASCII shows is no blank. -/
theorem isBlank_eq_false_of_ascii {c : Char} (h : 0x20 < c.toNat) (h' : c.toNat < 0x80) :
    isBlank c = false := by
  rw [Bool.eq_false_iff]
  intro hblank
  have hcases := isBlank_cases hblank
  omega

end SccSharp.Text
