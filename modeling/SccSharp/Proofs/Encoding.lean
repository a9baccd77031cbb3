import SccSharp.Reading

/-!
# Bytes and texts

Decoding and encoding are inverse to each other: the bytes that decode to a whole text are those
that encode it, and no others, however they are cut into chunks. So "the bytes are UTF-8" can be
said without the decoder, and what is read of the bytes of a text can be told from the text.

## Main Statements

* `Utf8.decode_eq_whole_iff` — chunks decode to a text just if they are its bytes
* `Utf8.flatten_chunks` — bytes cut into chunks are the same bytes
* `Reading.ofChunks_of_flatten`, `Reading.ofBytes_encode` — what is read of the bytes of a text
-/

namespace SccSharp.Text.Utf8

/-! ### Single bytes -/

/-- A small number is kept by its byte. -/
theorem toNat_byte {n : Nat} (h : n < 0x100) : (byte n).toNat = n :=
  Nat.mod_eq_of_lt h

/-- The number of a byte gives it back. -/
theorem byte_toNat (b : UInt8) : byte b.toNat = b :=
  UInt8.ofNat_toNat

/-- A code point is none of the surrogates, and there are no higher ones. -/
theorem toNat_cases (c : Char) :
    c.toNat < 0xD800 ∨ 0xE000 ≤ c.toNat ∧ c.toNat < 0x110000 := by
  rcases c.valid with h | ⟨hlow, hhigh⟩
  · exact .inl h
  · exact .inr ⟨hlow, hhigh⟩

/-! ### From a text to its bytes and back -/

section Steps

variable {read : List Char} {low high value n : Nat}

/-- An ASCII byte is a character. -/
theorem step_ascii (h : n < 0x80) :
    Decoder.step ⟨read, none⟩ (byte n) = some ⟨Char.ofNat n :: read, none⟩ := by
  have hbyte : (byte n).toNat = n := toNat_byte (by omega)
  simp only [Decoder.step, hbyte, if_pos h]

/-- Any other byte between characters opens one. -/
theorem step_lead {begun : Begun} (h : 0x80 ≤ n) (h' : n < 0x100)
    (hlead : Begun.ofLead? n = some begun) :
    Decoder.step ⟨read, none⟩ (byte n) = some ⟨read, some begun⟩ := by
  simp only [Decoder.step, toNat_byte h', if_neg (Nat.not_lt.2 h), hlead, Option.map_some]

/-- A byte in the middle of a character. -/
theorem step_middle {owed : Nat} (hlow : low ≤ 0x80 + n) (hhigh : 0x80 + n ≤ high) (h : n < 0x40) :
    Decoder.step ⟨read, some ⟨owed + 1, low, high, value⟩⟩ (byte (0x80 + n)) =
      some ⟨read, some ⟨owed, 0x80, 0xBF, value * 0x40 + n⟩⟩ := by
  have hbyte : (byte (0x80 + n)).toNat = 0x80 + n := toNat_byte (by omega)
  simp only [Decoder.step, hbyte, if_pos (And.intro hlow hhigh), Nat.add_sub_cancel_left]

/-- The last byte of a character. -/
theorem step_last (hlow : low ≤ 0x80 + n) (hhigh : 0x80 + n ≤ high) (h : n < 0x40) :
    Decoder.step ⟨read, some ⟨0, low, high, value⟩⟩ (byte (0x80 + n)) =
      some ⟨Char.ofNat (value * 0x40 + n) :: read, none⟩ := by
  have hbyte : (byte (0x80 + n)).toNat = 0x80 + n := toNat_byte (by omega)
  simp only [Decoder.step, hbyte, if_pos (And.intro hlow hhigh), Nat.add_sub_cancel_left]

end Steps

/-- The byte that opens a character of two bytes. -/
theorem ofLead?_two {k : Nat} (h : 2 ≤ k) (h' : k < 0x20) :
    Begun.ofLead? (0xC0 + k) = some ⟨0, 0x80, 0xBF, k⟩ := by
  rw [Begun.ofLead?, if_pos (by omega), Nat.add_sub_cancel_left]

/-- The byte that opens a character of three bytes, and the second one. -/
theorem ofLead?_three {n : Nat} (h : 0x800 ≤ n) (h' : n < 0xD800 ∨ 0xE000 ≤ n ∧ n < 0x10000) :
    ∃ low high, Begun.ofLead? (0xE0 + n / 0x1000) = some ⟨1, low, high, n / 0x1000⟩ ∧
      low ≤ 0x80 + n / 0x40 % 0x40 ∧ 0x80 + n / 0x40 % 0x40 ≤ high := by
  rw [Begun.ofLead?, if_neg (by omega)]
  by_cases hfirst : n / 0x1000 = 0
  · exact ⟨0xA0, 0xBF, by simp [hfirst], by omega, by omega⟩
  · by_cases hsurrogates : n / 0x1000 = 0xD
    · exact ⟨0x80, 0x9F, by simp [hsurrogates], by omega, by omega⟩
    · refine ⟨0x80, 0xBF, ?_, by omega, by omega⟩
      rw [if_neg (by omega), if_neg (by omega), if_pos (by omega), Nat.add_sub_cancel_left]

/-- The byte that opens a character of four bytes, and the second one. -/
theorem ofLead?_four {n : Nat} (h : 0x10000 ≤ n) (h' : n < 0x110000) :
    ∃ low high, Begun.ofLead? (0xF0 + n / 0x40000) = some ⟨2, low, high, n / 0x40000⟩ ∧
      low ≤ 0x80 + n / 0x1000 % 0x40 ∧ 0x80 + n / 0x1000 % 0x40 ≤ high := by
  rw [Begun.ofLead?, if_neg (by omega), if_neg (by omega), if_neg (by omega), if_neg (by omega)]
  by_cases hfirst : n / 0x40000 = 0
  · exact ⟨0x90, 0xBF, by simp [hfirst], by omega, by omega⟩
  · by_cases hlast : n / 0x40000 = 4
    · exact ⟨0x80, 0x8F, by simp [hlast], by omega, by omega⟩
    · refine ⟨0x80, 0xBF, ?_, by omega, by omega⟩
      rw [if_neg (by omega), if_neg (by omega), if_pos (by omega), Nat.add_sub_cancel_left]

/-- **The bytes of a character are read as that character.** -/
theorem foldlM_encodeChar (c : Char) (read : List Char) :
    (encodeChar c).foldlM Decoder.step ⟨read, none⟩ = some ⟨c :: read, none⟩ := by
  have hc : Char.ofNat c.toNat = c := Char.ofNat_toNat c
  have hvalid := toNat_cases c
  rw [encodeChar]
  generalize c.toNat = n at hc hvalid
  split
  · next h =>
      rw [List.foldlM_cons, step_ascii h, hc]
      rfl
  split
  · have hlead := ofLead?_two (k := n / 0x40) (by omega) (by omega)
    have hvalue : n / 0x40 * 0x40 + n % 0x40 = n := by omega
    rw [List.foldlM_cons, step_lead (by omega) (by omega) hlead]
    change List.foldlM _ _ _ = _
    rw [List.foldlM_cons, step_last (by omega) (by omega) (by omega), hvalue, hc]
    rfl
  split
  · obtain ⟨low, high, hlead, hlow, hhigh⟩ := ofLead?_three (n := n) (by omega) (by omega)
    have hvalue : (n / 0x1000 * 0x40 + n / 0x40 % 0x40) * 0x40 + n % 0x40 = n := by omega
    rw [List.foldlM_cons, step_lead (by omega) (by omega) hlead]
    change List.foldlM _ _ _ = _
    rw [List.foldlM_cons, step_middle hlow hhigh (by omega)]
    change List.foldlM _ _ _ = _
    rw [List.foldlM_cons, step_last (by omega) (by omega) (by omega), hvalue, hc]
    rfl
  · obtain ⟨low, high, hlead, hlow, hhigh⟩ := ofLead?_four (n := n) (by omega) (by omega)
    have hvalue : ((n / 0x40000 * 0x40 + n / 0x1000 % 0x40) * 0x40 + n / 0x40 % 0x40) * 0x40 +
        n % 0x40 = n := by omega
    rw [List.foldlM_cons, step_lead (by omega) (by omega) hlead]
    change List.foldlM _ _ _ = _
    rw [List.foldlM_cons, step_middle hlow hhigh (by omega)]
    change List.foldlM _ _ _ = _
    rw [List.foldlM_cons, step_middle (by omega) (by omega) (by omega)]
    change List.foldlM _ _ _ = _
    rw [List.foldlM_cons, step_last (by omega) (by omega) (by omega), hvalue, hc]
    rfl

/-- The bytes of a text are read as that text. -/
theorem foldlM_encode (text read : List Char) :
    (encode text).foldlM Decoder.step ⟨read, none⟩ = some ⟨text.reverse ++ read, none⟩ := by
  induction text generalizing read with
  | nil => rfl
  | cons c text ih =>
      rw [encode, List.flatMap_cons, List.foldlM_append, foldlM_encodeChar]
      refine (ih (c :: read)).trans ?_
      rw [List.reverse_cons, List.append_assoc, List.singleton_append]

/-! ### From bytes to a text and back -/

/-- The code point of a character that is made from one. -/
theorem toNat_ofNat {n : Nat} (h : n < 0xD800 ∨ 0xE000 ≤ n ∧ n < 0x110000) :
    (Char.ofNat n).toNat = n := by
  have hvalid : n.isValidChar := by
    rcases h with h | ⟨hlow, hhigh⟩
    · exact .inl h
    · exact .inr ⟨hlow, hhigh⟩
  rw [Char.ofNat, dif_pos hvalid]
  rfl

/-- A byte is known by its number. -/
theorem byte_eq {n : Nat} {b : UInt8} (h : n = b.toNat) : byte n = b := by
  rw [h, byte_toNat]

/-- An ASCII byte encodes its character. -/
theorem encodeChar_one {b : UInt8} (h : b.toNat < 0x80) :
    encodeChar (Char.ofNat b.toNat) = [b] := by
  rw [encodeChar, toNat_ofNat (by omega), if_pos h, byte_toNat]

section Complete

variable {a b c d : UInt8}

/-- Two bytes that encode a character. -/
theorem encodeChar_two (ha : 0xC2 ≤ a.toNat) (ha' : a.toNat ≤ 0xDF) (hb : 0x80 ≤ b.toNat)
    (hb' : b.toNat ≤ 0xBF) :
    encodeChar (Char.ofNat ((a.toNat - 0xC0) * 0x40 + (b.toNat - 0x80))) = [a, b] := by
  rw [encodeChar, toNat_ofNat (by omega), if_neg (by omega), if_pos (by omega),
    byte_eq (b := a) (by omega), byte_eq (b := b) (by omega)]

/-- Three bytes that encode a character: the shorter forms and the surrogates are left out. -/
theorem encodeChar_three (ha : 0xE0 ≤ a.toNat) (ha' : a.toNat ≤ 0xEF) (hb : 0x80 ≤ b.toNat)
    (hb' : b.toNat ≤ 0xBF) (hlong : a.toNat = 0xE0 → 0xA0 ≤ b.toNat)
    (hscalar : a.toNat = 0xED → b.toNat ≤ 0x9F) (hc : 0x80 ≤ c.toNat) (hc' : c.toNat ≤ 0xBF) :
    encodeChar (Char.ofNat (((a.toNat - 0xE0) * 0x40 + (b.toNat - 0x80)) * 0x40 +
      (c.toNat - 0x80))) = [a, b, c] := by
  rw [encodeChar, toNat_ofNat (by omega), if_neg (by omega), if_neg (by omega), if_pos (by omega),
    byte_eq (b := a) (by omega), byte_eq (b := b) (by omega), byte_eq (b := c) (by omega)]

/-- Four bytes that encode a character: the shorter forms and what lies too high are left out. -/
theorem encodeChar_four (ha : 0xF0 ≤ a.toNat) (ha' : a.toNat ≤ 0xF4) (hb : 0x80 ≤ b.toNat)
    (hb' : b.toNat ≤ 0xBF) (hlong : a.toNat = 0xF0 → 0x90 ≤ b.toNat)
    (hscalar : a.toNat = 0xF4 → b.toNat ≤ 0x8F) (hc : 0x80 ≤ c.toNat) (hc' : c.toNat ≤ 0xBF)
    (hd : 0x80 ≤ d.toNat) (hd' : d.toNat ≤ 0xBF) :
    encodeChar (Char.ofNat ((((a.toNat - 0xF0) * 0x40 + (b.toNat - 0x80)) * 0x40 +
      (c.toNat - 0x80)) * 0x40 + (d.toNat - 0x80))) = [a, b, c, d] := by
  rw [encodeChar, toNat_ofNat (by omega), if_neg (by omega), if_neg (by omega), if_neg (by omega),
    byte_eq (b := a) (by omega), byte_eq (b := b) (by omega), byte_eq (b := c) (by omega),
    byte_eq (b := d) (by omega)]

end Complete

/-- **What has been seen of a character**: the bytes of it so far, and what the decoder remembers
of them. -/
inductive Seen : List UInt8 → Begun → Prop where
  | lead {b : UInt8} {begun : Begun} : Begun.ofLead? b.toNat = some begun → Seen [b] begun
  | more {bytes : List UInt8} {b : UInt8} {owed low high value : Nat} :
      Seen bytes ⟨owed + 1, low, high, value⟩ → low ≤ b.toNat → b.toNat ≤ high →
        Seen (bytes ++ [b]) ⟨owed, 0x80, 0xBF, value * 0x40 + (b.toNat - 0x80)⟩

/-- The bytes that open a character, with what they promise. -/
theorem ofLead?_cases {n : Nat} {begun : Begun} (h : Begun.ofLead? n = some begun) :
    (begun.owed = 0 ∧ 0xC2 ≤ n ∧ n ≤ 0xDF ∧ begun.value = n - 0xC0 ∧ begun.low = 0x80 ∧
      begun.high = 0xBF) ∨
    (begun.owed = 1 ∧ 0xE0 ≤ n ∧ n ≤ 0xEF ∧ begun.value = n - 0xE0 ∧
      0x80 ≤ begun.low ∧ begun.high ≤ 0xBF ∧ (n = 0xE0 → 0xA0 ≤ begun.low) ∧
      (n = 0xED → begun.high ≤ 0x9F)) ∨
    (begun.owed = 2 ∧ 0xF0 ≤ n ∧ n ≤ 0xF4 ∧ begun.value = n - 0xF0 ∧
      0x80 ≤ begun.low ∧ begun.high ≤ 0xBF ∧ (n = 0xF0 → 0x90 ≤ begun.low) ∧
      (n = 0xF4 → begun.high ≤ 0x8F)) := by
  unfold Begun.ofLead? at h
  repeat' split at h
  all_goals cases h
  all_goals dsimp only; omega

/-- No byte promises more than three to follow it. -/
theorem Seen.owed_le {bytes : List UInt8} {begun : Begun} (h : Seen bytes begun) :
    begun.owed ≤ 2 := by
  induction h with
  | lead hlead =>
      have hcases := ofLead?_cases hlead
      omega
  | more _ _ _ ih =>
      dsimp only at ih ⊢
      omega

/-- **The last byte completes the bytes of a character.** -/
theorem Seen.encodeChar_eq {bytes : List UInt8} {b : UInt8} {low high value : Nat}
    (h : Seen bytes ⟨0, low, high, value⟩) (hlow : low ≤ b.toNat) (hhigh : b.toNat ≤ high) :
    encodeChar (Char.ofNat (value * 0x40 + (b.toNat - 0x80))) = bytes ++ [b] := by
  -- the bytes seen before the last one number one, two or three, as the first one promised
  cases h with
  | lead hlead =>
      have hcases := ofLead?_cases hlead
      dsimp only at hcases
      obtain ⟨-, ha, ha', hvalue, hmin, hmax⟩ | ⟨howed, -⟩ | ⟨howed, -⟩ := hcases
      · rw [hvalue]
        exact encodeChar_two ha ha' (hmin ▸ hlow) (hmax ▸ hhigh)
      · cases howed
      · cases howed
  | more h hb hb' =>
      cases h with
      | lead hlead =>
          have hcases := ofLead?_cases hlead
          dsimp only at hcases
          obtain ⟨howed, -⟩ | ⟨-, ha, ha', hvalue, hmin, hmax, hlong, hscalar⟩ | ⟨howed, -⟩ :=
            hcases
          · cases howed
          · rw [hvalue]
            exact encodeChar_three ha ha' (Nat.le_trans hmin hb) (Nat.le_trans hb' hmax)
              (fun h => Nat.le_trans (hlong h) hb) (fun h => Nat.le_trans hb' (hscalar h))
              hlow hhigh
          · cases howed
      | more h hc hc' =>
          cases h with
          | lead hlead =>
              have hcases := ofLead?_cases hlead
              dsimp only at hcases
              obtain ⟨howed, -⟩ | ⟨howed, -⟩ | ⟨-, ha, ha', hvalue, hmin, hmax, hlong, hscalar⟩ :=
                hcases
              · cases howed
              · cases howed
              · rw [hvalue]
                exact encodeChar_four ha ha' (Nat.le_trans hmin hc) (Nat.le_trans hc' hmax)
                  (fun h => Nat.le_trans (hlong h) hc) (fun h => Nat.le_trans hc' (hscalar h))
                  hb hb' hlow hhigh
          | more h => exact absurd h.owed_le (by simp)

/-- **A decoder after some bytes**: they encode the characters read, and then comes what has been
seen of the one begun. -/
def Decoder.After (d : Decoder) (bytes : List UInt8) : Prop :=
  match d.begun with
  | none => bytes = encode d.read.reverse
  | some begun => ∃ part, bytes = encode d.read.reverse ++ part ∧ Seen part begun

/-- One more character is encoded behind the others. -/
theorem encode_reverse_cons (c : Char) (read : List Char) :
    encode (c :: read).reverse = encode read.reverse ++ encodeChar c := by
  simp [encode]

/-- **A byte more.** -/
theorem Decoder.After.step {d d' : Decoder} {bytes : List UInt8} {b : UInt8} (h : d.After bytes)
    (hstep : d.step b = some d') : d'.After (bytes ++ [b]) := by
  obtain ⟨read, begun⟩ := d
  unfold Decoder.step at hstep
  cases begun with
  | none =>
      have hbytes : bytes = encode read.reverse := h
      dsimp only at hstep
      split at hstep
      · next hascii =>
          cases hstep
          show _ = encode (_ :: read).reverse
          rw [encode_reverse_cons, encodeChar_one hascii, hbytes]
      · obtain ⟨begun, hlead, rfl⟩ := Option.map_eq_some_iff.1 hstep
        exact ⟨[b], by rw [hbytes], .lead hlead⟩
  | some begun =>
      obtain ⟨part, hbytes, hseen⟩ := h
      obtain ⟨owed, low, high, value⟩ := begun
      dsimp only at hstep hbytes hseen
      split at hstep
      · next hrange =>
          cases owed with
          | zero =>
              cases hstep
              show _ = encode (_ :: read).reverse
              rw [encode_reverse_cons, hseen.encodeChar_eq hrange.1 hrange.2, hbytes,
                List.append_assoc]
          | succ owed =>
              cases hstep
              refine ⟨part ++ [b], ?_, hseen.more hrange.1 hrange.2⟩
              rw [hbytes, List.append_assoc]
      · cases hstep

/-- Bytes that are decoded, from some bytes on. -/
theorem Decoder.After.foldlM {d d' : Decoder} {bytes more : List UInt8} (h : d.After bytes)
    (hmore : more.foldlM Decoder.step d = some d') : d'.After (bytes ++ more) := by
  induction more generalizing d bytes with
  | nil =>
      cases hmore
      rwa [List.append_nil]
  | cons b more ih =>
      rw [List.foldlM_cons] at hmore
      obtain ⟨next, hstep, hmore⟩ := Option.bind_eq_some_iff.1 hmore
      have hall := ih (h.step hstep) hmore
      rwa [List.append_assoc] at hall

/-! ### Chunks -/

/-- Chunks decode to a whole text just if their bytes put together do. -/
theorem Decoder.decode_eq_whole_iff {d : Decoder} {chunks : List (List UInt8)} {text : List Char} :
    d.decode chunks = .whole text ↔
      chunks.flatten.foldlM Decoder.step d = some ⟨text.reverse, none⟩ := by
  induction chunks generalizing d with
  | nil =>
      obtain ⟨read, begun⟩ := d
      cases begun with
      | none =>
          have hread : read.reverse = text ↔ read = text.reverse := List.reverse_eq_iff
          simpa [decode] using hread
      | some begun => simp [decode]
  | cons chunk chunks ih =>
      rw [decode, List.flatten_cons, List.foldlM_append]
      cases chunk.foldlM Decoder.step d with
      | none => simp
      | some next => exact ih

/-- **UTF-8 is what encodes a text**: chunks decode to a whole text just if they are its bytes. -/
theorem decode_eq_whole_iff {chunks : List (List UInt8)} {text : List Char} :
    decode chunks = .whole text ↔ chunks.flatten = encode text := by
  rw [decode, Decoder.decode_eq_whole_iff]
  constructor
  · intro h
    have hstart : Decoder.After {} [] := rfl
    have hafter : chunks.flatten = encode text.reverse.reverse := hstart.foldlM h
    rwa [List.reverse_reverse] at hafter
  · intro h
    rw [h, foldlM_encode, List.append_nil]

/-- What belongs to the first chunk, followed by the others, is all that has been cut. -/
theorem flatten_cut (size room : Nat) (bytes : List UInt8) :
    (cut size room bytes).1 ++ (cut size room bytes).2.flatten = bytes := by
  induction bytes generalizing room with
  | nil => cases room <;> rfl
  | cons b bytes ih =>
      cases room with
      | zero => exact congrArg (b :: ·) (ih (size - 1))
      | succ room => exact congrArg (b :: ·) (ih room)

/-- **Bytes cut into chunks** are the same bytes. -/
theorem flatten_chunks (size : Nat) (bytes : List UInt8) : (chunks size bytes).flatten = bytes :=
  flatten_cut size size bytes

end SccSharp.Text.Utf8

namespace SccSharp.Reading

/-- **The readings of the bytes of a text** are its lines, however the bytes arrive. -/
theorem ofChunks_of_flatten {chunks : List (List UInt8)} {text : List Char}
    (newlines : Text.Newlines) (h : chunks.flatten = Text.Utf8.encode text) :
    ofChunks newlines chunks = ofText (newlines.read text) := by
  rw [ofChunks, Text.Utf8.decode_eq_whole_iff.2 h]

/-- The readings of the bytes of a text are its lines. -/
theorem ofBytes_encode (text : List Char) (newlines : Text.Newlines) :
    ofBytes (Text.Utf8.encode text) newlines = ofText (newlines.read text) :=
  ofChunks_of_flatten newlines (Text.Utf8.flatten_chunks chunkSize _)

end SccSharp.Reading
