/-!
# Decimal digits

The digits a number constant is written with: the decimal digits of every script, whose ten code
points stand in a row from zero to nine.

## Main Definitions

* `decimalZeros` — the zero of each script
* `isDigit` — whether a character is a decimal digit of some script
-/

namespace SccSharp.Text

/-- The code points of the zeros. -/
def decimalZeros : List Nat :=
  [0x30, 0x660, 0x6F0, 0x7C0, 0x966, 0x9E6, 0xA66, 0xAE6, 0xB66, 0xBE6, 0xC66, 0xCE6, 0xD66, 0xDE6,
    0xE50, 0xED0, 0xF20, 0x1040, 0x1090, 0x17E0, 0x1810, 0x1946, 0x19D0, 0x1A80, 0x1A90, 0x1B50,
    0x1BB0, 0x1C40, 0x1C50, 0xA620, 0xA8D0, 0xA900, 0xA9D0, 0xA9F0, 0xAA50, 0xABF0, 0xFF10, 0x104A0,
    0x10D30, 0x11066, 0x110F0, 0x11136, 0x111D0, 0x112F0, 0x11450, 0x114D0, 0x11650, 0x116C0,
    0x11730, 0x118E0, 0x11950, 0x11C50, 0x11D50, 0x11DA0, 0x16A60, 0x16AC0, 0x16B50, 0x1D7CE,
    0x1D7D8, 0x1D7E2, 0x1D7EC, 0x1D7F6, 0x1E140, 0x1E2F0, 0x1E950, 0x1FBF0]

/-- Whether a character is a decimal digit. -/
def isDigit (c : Char) : Bool :=
  decimalZeros.any fun first => first ≤ c.toNat && c.toNat < first + 10

/-- Every ASCII digit is a digit. -/
theorem isDigit_of_ascii {c : Char} (h : c.isDigit = true) : isDigit c = true := by
  simp only [Char.isDigit, Bool.and_eq_true, decide_eq_true_eq, ge_iff_le, UInt32.le_iff_toNat_le]
    at h
  simp only [isDigit, List.any_eq_true, Bool.and_eq_true, decide_eq_true_eq]
  exact ⟨0x30, by decide, h.1, Nat.lt_succ_of_le h.2⟩

/-- A digit is an ASCII digit or lies beyond ASCII. -/
theorem isDigit_cases {c : Char} (h : isDigit c = true) :
    (0x30 ≤ c.toNat ∧ c.toNat < 0x3A) ∨ 0x80 ≤ c.toNat := by
  have hzeros : ∀ first ∈ decimalZeros, first = 0x30 ∨ 0x80 ≤ first := by decide
  simp only [isDigit, List.any_eq_true, Bool.and_eq_true, decide_eq_true_eq] at h
  obtain ⟨first, hmem, hle, hlt⟩ := h
  rcases hzeros first hmem with rfl | hbeyond
  · exact .inl ⟨hle, hlt⟩
  · exact .inr (Nat.le_trans hbeyond hle)

/-- An ASCII letter, as code points. -/
theorem isAlpha_cases {c : Char} (h : c.isAlpha = true) :
    (0x41 ≤ c.toNat ∧ c.toNat ≤ 0x5A) ∨ (0x61 ≤ c.toNat ∧ c.toNat ≤ 0x7A) := by
  have hcase : (c.isUpper || c.isLower) = true := h
  rcases (Bool.or_eq_true _ _).mp hcase with hupper | hlower
  · have hrange : decide ('A'.val ≤ c.val ∧ c.val ≤ 'Z'.val) = true := hupper
    rw [decide_eq_true_eq, UInt32.le_iff_toNat_le, UInt32.le_iff_toNat_le] at hrange
    exact .inl hrange
  · have hrange : (decide ('a'.val ≤ c.val) && decide (c.val ≤ 'z'.val)) = true := hlower
    rw [Bool.and_eq_true, decide_eq_true_eq, decide_eq_true_eq, UInt32.le_iff_toNat_le,
      UInt32.le_iff_toNat_le] at hrange
    exact .inr hrange

/-- No ASCII letter is a digit. -/
theorem isDigit_eq_false_of_isAlpha {c : Char} (h : c.isAlpha = true) : isDigit c = false := by
  rw [Bool.eq_false_iff]
  intro hdigit
  have hletter := isAlpha_cases h
  have hrange := isDigit_cases hdigit
  omega

end SccSharp.Text
