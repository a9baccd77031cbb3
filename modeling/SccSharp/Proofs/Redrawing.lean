import SccSharp.Proofs.Position

/-!
# Drawing again

What becomes of a reader that is drawn from again and again, whatever the reads give.

* **A failed read loses nothing and repeats nothing.** A reader whose script holds failures goes
  through the same tokens, errors and lines as one whose script does not, with draws in between
  that report the failures (`Trails.session`).
* **Malformed text and the end are final.** Once a draw has met one of them, every later draw gives
  the same and reads nothing, whatever there is to read (`Repeats`).
* **The line is the number of lines read**, except at the end of a source without lines.

The first of these compares two readers that need not stand at the same place: where a read fails,
the one has already passed the blank lines in front of it. What they agree on is what they find next
(`Trails`), and as soon as a draw gives something else, they stand at one place again.

## Main Definitions

* `Reader.afterDraws`, `Reader.result`, `Reader.session` — draws in a row
* `Reader.withoutFailures` — a reader whose reads never fail
* `Reader.Trails` — finding next what a reader without failures finds
* `Reader.Repeats` — a reader that gives one answer for ever and reads nothing

## Main Statements

* `Reader.Trails.session` — failures leave the other answers as they are
* `Reader.repeats_of_malformed`, `Reader.repeats_of_end` — what is final
* `Reader.line_afterDraws` — what the line counts
* `Reader.draws_survive_failures` — all of it, for every script
-/

namespace SccSharp

/-! ### Finding text again -/

namespace Place

/-- Behind the blanks there are none left to skip. -/
theorem skipBlanks_skipBlanks (p : Place) : p.skipBlanks.skipBlanks = p.skipBlanks := by
  have hnone : p.skipBlanks.rest.takeWhile Text.isBlank = [] := by
    rw [skipBlanks, rest_pass]
    induction p.rest with
    | nil => rfl
    | cons c rest ih =>
        by_cases hc : Text.isBlank c = true
        · rw [List.takeWhile_cons_of_pos hc]
          exact ih
        · rw [List.takeWhile_cons_of_neg hc, List.length_nil, List.drop_zero,
            List.takeWhile_cons_of_neg hc]
  rw [skipBlanks.eq_1 p.skipBlanks, hnone]
  rfl

/-- Where text is left on the line, nothing is read. -/
theorem seek_of_skipBlanks {p : Place} {c : Char} {rest : List Char} (script : List Reading)
    (h : p.skipBlanks.rest = c :: rest) : seek p script = (.text c rest, p.skipBlanks, script) := by
  cases script with
  | nil => simp only [seek, h]
  | cons reading script => simp only [seek, h]

/-- Where none is left, the next line is read. -/
theorem seek_line_of_skipBlanks {p : Place} {c : Char} {line : List Char} (script : List Reading)
    (h : p.skipBlanks.rest = []) :
    seek p (.line (c :: line) :: script) = seek (p.startLine (c :: line)) script := by
  rw [seek.eq_def]
  simp only [h]

/-- An empty line ends the source. -/
theorem seek_end_of_skipBlanks {p : Place} (script : List Reading) (h : p.skipBlanks.rest = []) :
    seek p (.line [] :: script) = (.ended, p.skipBlanks, script) := by
  rw [seek.eq_def]
  simp only [h]

@[simp] theorem startLine_skipBlanks (p : Place) (text : List Char) :
    p.skipBlanks.startLine text = p.startLine text := rfl

@[simp] theorem linesRead_startLine (p : Place) (text : List Char) :
    (p.startLine text).linesRead = p.linesRead + 1 := rfl

/-- Skipping blanks first makes no difference. -/
theorem seek_skipBlanks (p : Place) (script : List Reading) :
    seek p.skipBlanks script = seek p script := by
  cases script with
  | nil => simp only [seek, skipBlanks_skipBlanks]
  | cons reading script => simp only [seek, skipBlanks_skipBlanks, startLine_skipBlanks]

end Place

/-- A reading that is a line and not the end. -/
def Reading.isLine : Reading → Bool
  | .line (_ :: _) => true
  | _ => false

/-- A reading that fails. -/
def Reading.isFailure : Reading → Bool
  | .failure _ => true
  | .line _ => false

/-- **The readings without those that fail.** -/
def Reading.withoutFailures (script : List Reading) : List Reading :=
  script.filter fun reading => !reading.isFailure

/-- Seeking comes to a place behind the blanks. -/
theorem seek_reached (p : Place) (script : List Reading) :
    (seek p script).2.1.skipBlanks = (seek p script).2.1 := by
  induction script generalizing p with
  | nil =>
      unfold seek
      split <;> exact p.skipBlanks_skipBlanks
  | cons reading script ih =>
      unfold seek
      split
      · exact p.skipBlanks_skipBlanks
      · split
        · exact p.skipBlanks_skipBlanks
        · exact p.skipBlanks_skipBlanks
        · exact ih _

/-- **Seeking reads lines and counts them.** -/
theorem exists_read_of_seek (p : Place) (script : List Reading) :
    ∃ read, script = read ++ (seek p script).2.2 ∧
      (seek p script).2.1.linesRead = p.linesRead + read.countP Reading.isLine := by
  induction script generalizing p with
  | nil =>
      refine ⟨[], ?_⟩
      unfold seek
      split <;> exact ⟨rfl, rfl⟩
  | cons reading script ih =>
      unfold seek
      split
      · exact ⟨[], rfl, rfl⟩
      · split
        · exact ⟨[.failure _], rfl, rfl⟩
        · exact ⟨[.line []], rfl, rfl⟩
        · next text hne =>
            obtain ⟨read, hscript, hlines⟩ := ih (p.startLine text)
            obtain ⟨c, rest, rfl⟩ := List.exists_cons_of_ne_nil fun h => hne h
            refine ⟨.line (c :: rest) :: read, congrArg (_ :: ·) hscript, ?_⟩
            rw [hlines, List.countP_cons_of_pos rfl, Place.linesRead_startLine]
            omega

/-- What is found behind a read that fails is what would be found without it. -/
theorem seek_of_failed {p p' : Place} {script rest : List Reading} {reason : ReadFailure}
    (h : seek p script = (.failed reason, p', rest)) :
    seek p' (Reading.withoutFailures rest) = seek p (Reading.withoutFailures script) := by
  induction script generalizing p with
  | nil =>
      unfold seek at h
      split at h <;> cases h
  | cons reading script ih =>
      unfold seek at h
      split at h
      · cases h
      · next hblank =>
          split at h
          · cases h
            exact p.seek_skipBlanks _
          · cases h
          · next text hne =>
              obtain ⟨c, line, rfl⟩ := List.exists_cons_of_ne_nil fun h => hne h
              rw [ih h]
              exact (Place.seek_line_of_skipBlanks _ hblank).symm

/-- Whatever else is found is found without the reads that fail. -/
theorem seek_withoutFailures {p p' : Place} {script rest : List Reading} {arrival : Arrival}
    (h : seek p script = (arrival, p', rest)) (hne : ∀ reason, arrival ≠ .failed reason) :
    seek p (Reading.withoutFailures script) = (arrival, p', Reading.withoutFailures rest) := by
  induction script generalizing p with
  | nil =>
      unfold seek at h
      split at h
      · next hrest =>
          cases h
          exact Place.seek_of_skipBlanks _ hrest
      · next hrest =>
          cases h
          show seek p [] = _
          rw [seek.eq_1]
          simp only [hrest]
          rfl
  | cons reading script ih =>
      unfold seek at h
      split at h
      · next hrest =>
          cases h
          exact Place.seek_of_skipBlanks _ hrest
      · next hblank =>
          split at h
          · cases h
            exact absurd rfl (hne _)
          · cases h
            exact Place.seek_end_of_skipBlanks _ hblank
          · next text htext =>
              obtain ⟨c, line, rfl⟩ := List.exists_cons_of_ne_nil fun h => htext h
              rw [← ih h]
              exact Place.seek_line_of_skipBlanks _ hblank

/-! ### Draws in a row -/

/-- **What one draw shows**: its result, and the line that the reader stands on after it. -/
structure Answer where
  result : Except SourceFailure Token
  line : Nat

/-- An answer other than that a read has failed. -/
def Answer.readable (a : Answer) : Bool :=
  match a.result with
  | .error (.unreadable _) => false
  | _ => true

namespace Reader

variable {r r' s : Reader}

/-- The reader after a number of draws. -/
def afterDraws (r : Reader) : Nat → Reader
  | 0 => r
  | count + 1 => r.draw.2.afterDraws count

/-- What a draw gives that comes after a number of others. -/
def result (r : Reader) (count : Nat) : Except SourceFailure Token :=
  (r.afterDraws count).draw.1

/-- The answers of a number of draws, in order. -/
def session (r : Reader) : Nat → List Answer
  | 0 => []
  | count + 1 => ⟨r.draw.1, r.draw.2.line⟩ :: r.draw.2.session count

/-- The reader whose reads never fail. -/
def withoutFailures (r : Reader) : Reader :=
  { r with script := Reading.withoutFailures r.script }

/-- **A reader that repeats itself**: whatever there is to read, every draw gives the same and
leaves the reader as it is, so that nothing is read. -/
def Repeats (r : Reader) (result : Except SourceFailure Token) : Prop :=
  ∀ (script : List Reading) (count : Nat),
    ({ r with script := script } : Reader).afterDraws count = { r with script := script } ∧
      ({ r with script := script } : Reader).result count = result

/-! ### What a draw can do -/

/-- **The outcomes of a draw**, by what is found first. A draw finds nothing any more behind the
end; otherwise it comes to a place behind the blanks. -/
inductive Drawn (r : Reader) : Except SourceFailure Token → Reader → Prop where
  | exhausted : r.ended = true → Drawn r (.ok (.endOfInput r.line)) r
  | ended {p : Place} {script : List Reading} :
      r.ended = false → seek r.place r.script = (.ended, p, script) →
        Drawn r (.ok (.endOfInput { r with place := p, script := script, ended := true }.line))
          { r with place := p, script := script, ended := true }
  | unreadable {p : Place} {script : List Reading} {reason : ReadFailure} :
      r.ended = false → seek r.place r.script = (.failed reason, p, script) →
        Drawn r (.error (.unreadable reason)) (r.arrive p script)
  | malformed {p : Place} {script : List Reading} {c : Char} {rest : List Char} {fault : Fault} :
      r.ended = false → seek r.place r.script = (.text c rest, p, script) →
        Lexeme.read c rest = .error fault →
          Drawn r (.error (.malformed (fault.diagnostic (r.arrive p script).location)))
            (r.arrive p script)
  | token {p : Place} {script : List Reading} {c : Char} {rest : List Char} {lexeme : Lexeme} :
      r.ended = false → seek r.place r.script = (.text c rest, p, script) →
        Lexeme.read c rest = .ok lexeme →
          Drawn r (.ok ⟨lexeme.kind, lexeme.text, (r.arrive p script).line⟩)
            (r.arrive (p.pass lexeme.spelling.length) script)

/-- A draw has one of these outcomes. -/
theorem drawn (r : Reader) : r.Drawn r.draw.1 r.draw.2 := by
  cases hended : r.ended with
  | true =>
      rw [draw, if_pos hended]
      exact .exhausted hended
  | false =>
      rw [draw, hended, if_neg Bool.false_ne_true]
      cases hseek : seek r.place r.script with
      | mk arrival found =>
          obtain ⟨p, script⟩ := found
          cases arrival with
          | ended => exact .ended hended hseek
          | failed reason => exact .unreadable hended hseek
          | text c rest =>
              cases hread : Lexeme.read c rest with
              | error fault =>
                  simp only [hread]
                  exact .malformed hended hseek hread
              | ok lexeme =>
                  simp only [hread]
                  exact .token hended hseek hread

/-- And only one. -/
theorem Drawn.draw_eq {result : Except SourceFailure Token} (h : r.Drawn result r') :
    r.draw = (result, r') := by
  cases h with
  | exhausted hended => rw [draw, if_pos hended]
  | ended hended hseek =>
      rw [draw, hended, if_neg Bool.false_ne_true, hseek]
      rfl
  | unreadable hended hseek => rw [draw, hended, if_neg Bool.false_ne_true, hseek]
  | malformed hended hseek hread =>
      rw [draw, hended, if_neg Bool.false_ne_true, hseek]
      simp only [hread]
  | token hended hseek hread =>
      rw [draw, hended, if_neg Bool.false_ne_true, hseek]
      simp only [hread]
      rfl

/-! ### What is final -/

theorem afterDraws_add (r : Reader) (first second : Nat) :
    r.afterDraws (first + second) = (r.afterDraws first).afterDraws second := by
  induction first generalizing r with
  | zero => rw [Nat.zero_add, afterDraws]
  | succ first ih =>
      rw [Nat.succ_add]
      exact ih r.draw.2

/-- One draw more. -/
theorem afterDraws_succ (r : Reader) (count : Nat) :
    r.afterDraws (count + 1) = (r.afterDraws count).draw.2 :=
  r.afterDraws_add count 1

/-- A reader that is left as it is by a draw repeats itself. -/
theorem repeats_of_draw {result : Except SourceFailure Token}
    (h : ∀ script, ({ r with script := script } : Reader).draw =
      (result, { r with script := script })) : r.Repeats result := by
  intro script count
  have hafter : ({ r with script := script } : Reader).afterDraws count =
      { r with script := script } := by
    induction count with
    | zero => rfl
    | succ count ih => rw [afterDraws_succ, ih, h]
  exact ⟨hafter, by rw [Reader.result, hafter, h]⟩

/-- **Malformed text is final.** -/
theorem repeats_of_malformed {report : Diagnostic}
    (h : r.draw.1 = .error (.malformed report)) :
    r.draw.2.Repeats (.error (.malformed report)) := by
  have hdrawn := r.drawn
  rw [h] at hdrawn
  generalize r.draw.2 = r' at hdrawn
  cases hdrawn with
  | @malformed p script c rest fault hended hseek hread =>
      -- the text that arrived is still there, and no blank in front of it
      have hreached := seek_reached r.place r.script
      rw [hseek] at hreached
      have hrest : p.skipBlanks.rest = c :: rest := hreached ▸ seek_text hseek
      refine repeats_of_draw fun more => ?_
      have hagain : seek p more = (.text c rest, p, more) := by
        rw [Place.seek_of_skipBlanks more hrest, hreached]
      exact (Drawn.malformed (r := ⟨r.file, more, p, r.ended⟩) hended hagain hread).draw_eq

/-- The end is given by a reader that has met it. -/
theorem ended_of_draw {t : Token} (h : r.draw.1 = .ok t) (ht : t.kind = .eof) :
    r.draw.2.ended = true ∧ t = .endOfInput r.draw.2.line := by
  have hdrawn := r.drawn
  rw [h] at hdrawn
  generalize r.draw.2 = r' at hdrawn
  cases hdrawn with
  | exhausted hended => exact ⟨hended, rfl⟩
  | ended => exact ⟨rfl, rfl⟩
  | token _ _ hread =>
      obtain ⟨text, hspells⟩ := Lexeme.exists_spells_of_read hread
      exact absurd ht hspells.kind_ne_eof

/-- A reader that has met the end gives it. -/
theorem draw_of_ended (h : r.ended = true) : r.draw = (.ok (.endOfInput r.line), r) :=
  (Drawn.exhausted h).draw_eq

/-- **The end is final.** -/
theorem repeats_of_end {t : Token} (h : r.draw.1 = .ok t) (ht : t.kind = .eof) :
    r.draw.2.Repeats (.ok t) := by
  obtain ⟨hended, rfl⟩ := ended_of_draw h ht
  exact repeats_of_draw fun more => draw_of_ended hended

/-! ### Failures left out -/

/-- **A reader trails another one** without failures: it finds next what the other one finds. -/
structure Trails (r s : Reader) : Prop where
  file : r.file = s.file
  ended : r.ended = s.ended
  place : r.ended = true → r.place = s.place
  ahead : seek r.place (Reading.withoutFailures r.script) = seek s.place s.script

/-- A reader trails itself without the failures. -/
theorem trails_withoutFailures (r : Reader) : r.Trails r.withoutFailures :=
  ⟨rfl, rfl, fun _ => rfl, rfl⟩

namespace Trails

/-- A read that fails leaves a reader behind, and it goes on to find the same. -/
theorem of_unreadable {reason : ReadFailure} (h : r.Trails s)
    (hdraw : r.draw.1 = .error (.unreadable reason)) : r.draw.2.Trails s := by
  have hdrawn := r.drawn
  rw [hdraw] at hdrawn
  generalize r.draw.2 = r' at hdrawn
  cases hdrawn with
  | unreadable hended hseek =>
      refine ⟨h.file, h.ended, ?_, (seek_of_failed hseek).trans h.ahead⟩
      intro hended'
      exact absurd (hended.symm.trans hended') Bool.false_ne_true

/-- **Any other answer is given by both**, and then they stand at one place. -/
theorem draw (h : r.Trails s) (hne : ∀ reason, r.draw.1 ≠ .error (.unreadable reason)) :
    s.draw.1 = r.draw.1 ∧ s.draw.2.line = r.draw.2.line ∧ r.draw.2.Trails s.draw.2 := by
  obtain ⟨file, script, place, ended⟩ := s
  obtain ⟨hfile, hsame, hplace, hahead⟩ := h
  dsimp only at hfile hsame hplace hahead
  subst hfile hsame
  have hdrawn := r.drawn
  generalize r.draw.1 = result at hdrawn hne ⊢
  generalize r.draw.2 = r' at hdrawn ⊢
  cases hdrawn with
  | exhausted hended =>
      obtain rfl := hplace hended
      rw [(Drawn.exhausted (r := ⟨r.file, script, r.place, r.ended⟩) hended).draw_eq]
      exact ⟨rfl, rfl, rfl, rfl, fun _ => rfl, hahead⟩
  | @ended p rest hended hseek =>
      rw [seek_withoutFailures hseek nofun] at hahead
      rw [(Drawn.ended (r := ⟨r.file, script, place, r.ended⟩) hended hahead.symm).draw_eq]
      exact ⟨rfl, rfl, rfl, rfl, fun _ => rfl, rfl⟩
  | unreadable => exact absurd rfl (hne _)
  | malformed hended hseek hread =>
      rw [seek_withoutFailures hseek nofun] at hahead
      rw [(Drawn.malformed (r := ⟨r.file, script, place, r.ended⟩) hended hahead.symm
        hread).draw_eq]
      exact ⟨rfl, rfl, rfl, rfl, fun _ => rfl, rfl⟩
  | token hended hseek hread =>
      rw [seek_withoutFailures hseek nofun] at hahead
      rw [(Drawn.token (r := ⟨r.file, script, place, r.ended⟩) hended hahead.symm hread).draw_eq]
      exact ⟨rfl, rfl, rfl, rfl, fun _ => rfl, rfl⟩

/-- **Failures leave the other answers as they are.** -/
theorem session (h : r.Trails s) (count : Nat) :
    (r.session count).filter Answer.readable =
      s.session ((r.session count).filter Answer.readable).length := by
  induction count generalizing r s with
  | zero => rfl
  | succ count ih =>
      rw [Reader.session]
      by_cases hfailed : ∃ reason, r.draw.1 = .error (.unreadable reason)
      · obtain ⟨reason, hfailed⟩ := hfailed
        rw [List.filter_cons_of_neg (by simp [Answer.readable, hfailed])]
        exact ih (h.of_unreadable hfailed)
      · have hne := not_exists.1 hfailed
        have hkept : (Answer.mk r.draw.1 r.draw.2.line).readable = true := by
          unfold Answer.readable
          split
          · next reason hreason => exact absurd hreason (hne reason)
          · rfl
        obtain ⟨hresult, hline, htrails⟩ := h.draw hne
        rw [List.filter_cons_of_pos hkept, List.length_cons, Reader.session, hresult, hline,
          ← ih htrails]

end Trails

/-! ### Lines -/

/-- A draw reads lines and counts them. -/
theorem exists_read_of_draw (r : Reader) :
    ∃ read, r.script = read ++ r.draw.2.script ∧
      r.draw.2.place.linesRead = r.place.linesRead + read.countP Reading.isLine := by
  have hdrawn := r.drawn
  generalize r.draw.1 = result at hdrawn
  generalize r.draw.2 = r' at hdrawn
  have hread := exists_read_of_seek r.place r.script
  cases hdrawn with
  | exhausted => exact ⟨[], rfl, rfl⟩
  | ended _ hseek | unreadable _ hseek | malformed _ hseek | token _ hseek =>
      rw [hseek] at hread
      exact hread

/-- Draws read lines and count them. -/
theorem exists_read_of_afterDraws (r : Reader) (count : Nat) :
    ∃ read, r.script = read ++ (r.afterDraws count).script ∧
      (r.afterDraws count).place.linesRead =
        r.place.linesRead + read.countP Reading.isLine := by
  induction count generalizing r with
  | zero => exact ⟨[], rfl, rfl⟩
  | succ count ih =>
      obtain ⟨first, hfirst, hlines⟩ := r.exists_read_of_draw
      obtain ⟨later, hlater, hlines'⟩ := ih r.draw.2
      refine ⟨first ++ later, ?_, ?_⟩
      · rw [hfirst, hlater, List.append_assoc]
        rfl
      · rw [List.countP_append, ← Nat.add_assoc, ← hlines]
        exact hlines'

/-- A token carries the line of the reader that gives it. -/
theorem line_of_draw {t : Token} (h : r.draw.1 = .ok t) : t.line = r.draw.2.line := by
  have hdrawn := r.drawn
  rw [h] at hdrawn
  generalize r.draw.2 = r' at hdrawn
  cases hdrawn with
  | exhausted | ended | token => rfl

/-- The line never decreases. -/
theorem line_le_draw (r : Reader) : r.line ≤ r.draw.2.line := by
  obtain ⟨read, -, hlines⟩ := r.exists_read_of_draw
  have hdrawn := r.drawn
  generalize r.draw.1 = result at hdrawn
  generalize r.draw.2 = r' at hdrawn hlines
  cases hdrawn with
  | exhausted => exact Nat.le_refl _
  | ended hended | unreadable hended | malformed hended | token hended =>
      simp only [line, arrive, hended] at hlines ⊢
      simp only [Bool.false_eq_true, if_false, if_true]
      omega

/-- A reader that has been drawn from has met the end just if the draw gave it. -/
theorem ended_draw_iff (r : Reader) :
    r.draw.2.ended = true ↔ ∃ t, r.draw.1 = .ok t ∧ t.kind = .eof := by
  refine ⟨fun h => ?_, fun ⟨t, hdraw, ht⟩ => (ended_of_draw hdraw ht).1⟩
  have hdrawn := r.drawn
  generalize r.draw.1 = result at hdrawn
  generalize r.draw.2 = r' at hdrawn h
  cases hdrawn with
  | exhausted | ended => exact ⟨_, rfl, rfl⟩
  | unreadable hended | malformed hended | token hended =>
      exact absurd (hended.symm.trans h) Bool.false_ne_true

/-- **The end has been met** by some draw of the first `count`. -/
def MetEnd (r : Reader) (count : Nat) : Prop :=
  ∃ i t, i < count ∧ r.result i = .ok t ∧ t.kind = .eof

/-- A reader knows whether it has met the end. -/
theorem ended_afterDraws_iff (hfresh : r.ended = false) (count : Nat) :
    (r.afterDraws count).ended = true ↔ r.MetEnd count := by
  constructor
  · intro h
    cases count with
    | zero => exact absurd (hfresh.symm.trans h) Bool.false_ne_true
    | succ count =>
        rw [afterDraws_succ] at h
        obtain ⟨t, hdraw, ht⟩ := (ended_draw_iff _).1 h
        exact ⟨count, t, Nat.lt_succ_self _, hdraw, ht⟩
  · rintro ⟨i, t, hi, hdraw, ht⟩
    obtain ⟨more, rfl⟩ := Nat.exists_eq_add_of_le (Nat.succ_le_of_lt hi)
    have hsame := (repeats_of_end hdraw ht (r.afterDraws i).draw.2.script more).1
    rw [afterDraws_add, Nat.succ_eq_add_one, afterDraws_succ]
    exact (congrArg ended hsame).trans ((ended_draw_iff _).2 ⟨t, hdraw, ht⟩)

/-- **The line is the number of lines read**, or one at the end of a source without lines. -/
theorem line_afterDraws (hfresh : r.ended = false) (hplace : r.place.linesRead = 0) (count : Nat) :
    ∃ read, r.script = read ++ (r.afterDraws count).script ∧
      (r.MetEnd count ∧ read.countP Reading.isLine = 0 → (r.afterDraws count).line = 1) ∧
      (¬(r.MetEnd count ∧ read.countP Reading.isLine = 0) →
        (r.afterDraws count).line = read.countP Reading.isLine) := by
  obtain ⟨read, hscript, hlines⟩ := r.exists_read_of_afterDraws count
  rw [hplace, Nat.zero_add] at hlines
  refine ⟨read, hscript, ?_⟩
  rw [← ended_afterDraws_iff hfresh, line, ← hlines]
  cases (r.afterDraws count).ended with
  | false => exact ⟨fun h => absurd h.1 Bool.false_ne_true, fun _ => rfl⟩
  | true =>
      simp only [if_true, true_and]
      omega

/-- **Draws survive failures**, whatever the reads give and however often a reader is drawn from.

* The answers other than failures are those of the same source without its failures, the line after
  each draw included.
* Once malformed text has been met, every later draw reports it again and reads nothing.
* Once the end has been met, every later draw gives the same sentinel and reads nothing.
* The line is the number of lines read so far, or one at the end of a source without lines. It never
  decreases, and it is the line of the token that has been drawn. -/
theorem draws_survive_failures (file : String) (script : List Reading) :
    let r : Reader := { file := file, script := script }
    (∀ count, (r.session count).filter Answer.readable =
      r.withoutFailures.session ((r.session count).filter Answer.readable).length) ∧
    (∀ count report, r.result count = .error (.malformed report) →
      (r.afterDraws (count + 1)).Repeats (.error (.malformed report))) ∧
    (∀ count t, r.result count = .ok t → t.kind = .eof →
      (r.afterDraws (count + 1)).Repeats (.ok t)) ∧
    (∀ count, ∃ read, script = read ++ (r.afterDraws count).script ∧
      (r.MetEnd count ∧ read.countP Reading.isLine = 0 → (r.afterDraws count).line = 1) ∧
      (¬(r.MetEnd count ∧ read.countP Reading.isLine = 0) →
        (r.afterDraws count).line = read.countP Reading.isLine)) ∧
    (∀ count, (r.afterDraws count).line ≤ (r.afterDraws (count + 1)).line) ∧
    (∀ count t, r.result count = .ok t → t.line = (r.afterDraws (count + 1)).line) := by
  intro r
  refine ⟨r.trails_withoutFailures.session, fun count report h => ?_, fun count t h ht => ?_,
    line_afterDraws (r := r) rfl rfl, fun count => ?_, fun count t h => ?_⟩
  · rw [afterDraws_succ]
    exact repeats_of_malformed h
  · rw [afterDraws_succ]
    exact repeats_of_end h ht
  · rw [afterDraws_succ]
    exact line_le_draw _
  · rw [afterDraws_succ]
    exact line_of_draw h

/-- A line behind the end is never read, though a read has failed before. -/
theorem draws_survive_failures_leftLine :
    let r : Reader :=
      { file := "left.scc", script := [.failure .notUtf8, .line [], .line ['x', '\n']] }
    r.result 1 = .ok (.endOfInput 1) ∧ (r.afterDraws 2).Repeats (.ok (.endOfInput 1)) := by
  intro r
  have hend : r.result 1 = .ok (.endOfInput 1) := rfl
  obtain ⟨-, -, hfinal, -⟩ := draws_survive_failures r.file r.script
  exact ⟨hend, hfinal 1 _ hend rfl⟩

end Reader

end SccSharp
