import SccSharp.Proofs.Language
import SccSharp.Proofs.Contexts

/-!
# Viable terminals

A terminal is viable behind a word if some sentence goes on with it there, the sentinel counting as
the end of one. Where the analyser stands behind the word, it can tell: a terminal is viable if the
moves by it lead to where it is asked for (`Agenda.Passes.viable_iff_admits`).

One direction is that every terminal passed is the start of a sentence so far, since errors are
found as early as they can be. The other one is that a sentence is accepted, and that the tokens in
front of the terminal are passed in one way only.

## Main Definitions

* `Rule.Viable` — a terminal that some sentence goes on with
* `Agenda.Admits` — an agenda that moves to a token

## Main Statements

* `Agenda.Passes.viable_iff_admits` — viable terminals are those admitted
-/

namespace SccSharp

/-- **A viable terminal** behind a word: some sentence of the rule, with the sentinel at its end,
goes on with it. -/
def Rule.Viable (r : Rule) (word : List Terminal) (t : Terminal) : Prop :=
  ∃ sentence, r.Sentence sentence ∧ word ++ [t] <+: sentence ++ [.eof]

/-- **An agenda admits a token** if the moves by it lead to where it is asked for. -/
def Agenda.Admits (agenda : Agenda) (t : Token) : Prop :=
  ∃ events rest, Moves t agenda events (.part (.terminal t.kind) :: rest)

/-! ### Words without the sentinel -/

/-- What is read holds no sentinel, unless the parts ask for it. -/
theorem Reads.eof_not_mem {parts : List Part} {f : Forest Terminal} {next : Terminal}
    (h : Reads parts f next) (hparts : .terminal .eof ∉ parts) : .eof ∉ Forest.frontier f := by
  induction h with
  | nil => exact List.not_mem_nil
  | @terminal t _ _ _ _ ih =>
      rw [Forest.frontier_leaf, List.mem_cons, not_or]
      refine ⟨?_, ih fun hmem => hparts (List.mem_cons_of_mem _ hmem)⟩
      rintro rfl
      exact hparts List.mem_cons_self
  | rule hbody _ _ ihChildren ih =>
      rw [Forest.frontier_node, List.mem_append, not_or]
      exact ⟨ihChildren (Rule.eof_not_mem_body hbody),
        ih fun hmem => hparts (List.mem_cons_of_mem _ hmem)⟩
  | @continuation k _ _ _ _ ih =>
      refine ih ?_
      rw [List.mem_append, not_or]
      exact ⟨k.eof_not_mem_body _, fun hmem => hparts (List.mem_cons_of_mem _ hmem)⟩

/-- A sentence holds no sentinel. -/
theorem Rule.Sentence.eof_not_mem {r : Rule} {word : List Terminal} (h : r.Sentence word) :
    .eof ∉ word := by
  obtain ⟨f, hreads, rfl⟩ := Rule.sentence_iff.1 h
  exact hreads.eof_not_mem (by simp)

namespace TokenQueue

/-- A queue that ends with its only sentinel. -/
theorem body_sentinel_of_kind {tokens : List Token} {last : Token} (lastLine : Int)
    (h : ∀ t ∈ tokens, t.kind ≠ .eof) (hlast : last.kind = .eof) :
    body ⟨tokens ++ [last], lastLine⟩ = tokens ∧ sentinel ⟨tokens ++ [last], lastLine⟩ = last := by
  have hnone : tokens.find? (fun t => t.kind = .eof) = none :=
    List.find?_eq_none.2 fun t ht => by simpa using h t ht
  constructor
  · rw [body, List.takeWhile_append_of_pos fun t ht => decide_eq_true (h t ht),
      List.takeWhile_cons_of_neg (by simp [hlast]), List.append_nil]
  · simp [sentinel, List.find?_append, hnone, hlast]

/-- Tokens and one more are what a queue of them starts with, its sentinel included. -/
theorem prefix_body_sentinel {tokens : List Token} (next : Token) (lastLine : Int)
    (h : ∀ t ∈ tokens, t.kind ≠ .eof) :
    tokens ++ [next] <+:
      body ⟨tokens ++ [next], lastLine⟩ ++ [sentinel ⟨tokens ++ [next], lastLine⟩] := by
  by_cases hnext : next.kind = .eof
  · obtain ⟨hbody, hsentinel⟩ := body_sentinel_of_kind lastLine h hnext
    exact ⟨[], by rw [hbody, hsentinel, List.append_nil]⟩
  · have hbody : body ⟨tokens ++ [next], lastLine⟩ = tokens ++ [next] := by
      rw [body, List.takeWhile_append_of_pos fun t ht => decide_eq_true (h t ht),
        List.takeWhile_cons_of_pos (by simp [hnext]), List.takeWhile_nil]
    rw [hbody]
    exact List.prefix_append _ _

/-- The terminals of a queue, the sentinel included. -/
theorem map_kind (q : TokenQueue) : (q.body ++ [q.sentinel]).map Token.kind = q.word ++ [.eof] := by
  rw [List.map_append, List.map_singleton, q.kind_sentinel, word]

/-- All tokens of a sentence are passed, and the sentinel. -/
theorem exists_passes_of_sentence {q : TokenQueue} {start : Rule} (h : start.Sentence q.word) :
    ∃ passed last, Agenda.Passes (.whole start) (q.body ++ [q.sentinel]) passed last := by
  have hsuccess := (parse_iff_sentence q .recording start).2 h
  cases hparse : (Analyser.fresh q .recording).parse none start with
  | mk stop a =>
      rw [hparse] at hsuccess
      obtain rfl : stop = none := hsuccess
      obtain ⟨named, rest, -, hbody, rfl⟩ := exists_reads_of_parse hparse
      obtain ⟨passed, last, hpasses⟩ := exists_passes_of_success hparse
      refine ⟨passed, last, ?_⟩
      have hevents : ∀ events : List Event,
          (Analyser.started ((q.cursor .recording).after (q.body ++ [q.sentinel]) events
            (q.sentinel, rest))).sink.events = events := Sink.events_emitAll_recording
      rw [hevents, acceptedTokens_append, Forest.acceptedTokens_events, hbody] at hpasses
      exact hpasses

/-- The start of a sentence is passed, or the start of the input up to a standstill. -/
theorem passes_cases (q : TokenQueue) (start : Rule) :
    start.Sentence q.word ∨ ∃ (found : Token) (tokens : List Token) (passed moved last : List Event)
      (agenda fresh : Agenda) (e : SyntaxError), Agenda.Passes (.whole start) tokens passed fresh ∧
        Agenda.Moves found fresh moved agenda ∧ Agenda.Rejects found agenda e last ∧
        tokens ++ [found] <+: q.body ++ [q.sentinel] ∧
        Fails [.rule start, .terminal .eof] (tokens.map Token.kind) found.kind := by
  rcases q.run_cases .recording start with ⟨named, _, hreads, hbody, -⟩ | ⟨e, _, _, -, -, hrun⟩
  · refine .inl (Rule.sentence_iff.2 ⟨_, hreads, ?_⟩)
    rw [Forest.frontier_map, hbody, word]
  · have hparse := parse_eq_some_iff.2 ⟨_, hrun, rfl⟩
    obtain ⟨hfails, hstart⟩ := fails_of_parse hparse
    obtain ⟨agenda, fresh, passed, moved, last, -, hpasses, hmoves, hrejects⟩ :=
      exists_rejects_of_syntaxError hparse
    exact .inr ⟨_, _, _, _, _, _, _, _, hpasses, hmoves, hrejects, hstart, hfails⟩

end TokenQueue

/-! ### Viable and admitted -/

namespace Agenda

variable {start : Rule} {tokens : List Token} {passed : List Event} {fresh : Agenda} {t : Token}

/-- **A viable terminal is admitted**: the sentence that goes on with it is accepted. -/
theorem Passes.admits_of_viable (h : Passes (.whole start) tokens passed fresh)
    (hviable : start.Viable (tokens.map Token.kind) t.kind) : fresh.Admits t := by
  obtain ⟨sentence, hsentence, more, hmore⟩ := hviable
  -- an input of that sentence which starts with these tokens
  have hinput : (tokens ++ t :: more.map fun kind => ⟨kind, "", t.line⟩).map Token.kind =
      sentence ++ [.eof] := by
    rw [← hmore]
    simp [Function.comp_def]
  obtain ⟨named, last, hsplit, hnamed, hlast⟩ := List.map_eq_append_iff.1 hinput
  obtain ⟨sentinel, rfl, hsentinel⟩ := List.map_eq_singleton_iff.1 hlast
  have hkinds : ∀ t ∈ named, t.kind ≠ .eof := by
    intro t ht heof
    refine hsentence.eof_not_mem ?_
    rw [← hnamed, ← heof]
    exact List.mem_map_of_mem ht
  obtain ⟨hbody, hend⟩ := TokenQueue.body_sentinel_of_kind 1 hkinds hsentinel
  have hword : start.Sentence (TokenQueue.word ⟨named ++ [sentinel], 1⟩) := by
    rw [TokenQueue.word, hbody, hnamed]
    exact hsentence
  obtain ⟨_, _, hpasses⟩ := TokenQueue.exists_passes_of_sentence hword
  rw [hbody, hend, ← hsplit] at hpasses
  -- the tokens in front are passed as they were before
  obtain ⟨middle, _, _, hfirst, hsecond⟩ := hpasses.of_append
  obtain ⟨-, rfl⟩ := h.unique hfirst
  cases hsecond with
  | pass hmoves _ => exact ⟨_, _, hmoves⟩

/-- Tokens that are passed run into no standstill. -/
theorem Passes.not_prefix_of_rejects {first : List Token} {events moved last : List Event}
    {found : Token} {middle agenda agenda' : Agenda} {e : SyntaxError}
    (h : Passes (.whole start) tokens passed agenda')
    (hfirst : Passes (.whole start) first events middle) (hmoves : Moves found middle moved agenda)
    (hrejects : Rejects found agenda e last) : ¬ first ++ [found] <+: tokens := by
  rintro ⟨later, rfl⟩
  rw [List.append_assoc] at h
  obtain ⟨_, _, _, hfirst', hsecond⟩ := h.of_append
  obtain ⟨-, rfl⟩ := hfirst.unique hfirst'
  cases hsecond with
  | pass hmoves' _ =>
      obtain ⟨-, rfl⟩ := hmoves.unique hrejects.still hmoves' .terminal
      cases hrejects with
      | mismatch hne => exact hne rfl

/-- **An admitted terminal is viable**: with it the word is still the start of a sentence. -/
theorem Passes.viable_of_admits (h : Passes (.whole start) tokens passed fresh)
    (hadmits : fresh.Admits t) : start.Viable (tokens.map Token.kind) t.kind := by
  obtain ⟨moves, rest, hmoves⟩ := hadmits
  have hne : fresh ≠ [] := by
    rintro rfl
    cases hmoves
  have hstart := TokenQueue.prefix_body_sentinel t 1
    (Formed.whole.kind_ne_eof_of_passes h hne)
  have hpassed := h.append (.pass hmoves .refl)
  have hkinds : tokens.map Token.kind ++ [t.kind] = (tokens ++ [t]).map Token.kind := by
    rw [List.map_append, List.map_singleton]
  rw [Rule.Viable, hkinds]
  rcases TokenQueue.passes_cases ⟨tokens ++ [t], 1⟩ start with
    hsentence | ⟨found, _, _, _, _, _, _, _, hpasses, hmoved, hrejects, hinput, hfails⟩
  · refine ⟨_, hsentence, ?_⟩
    rw [← TokenQueue.map_kind]
    exact hstart.map _
  · have hearlier := hpassed.not_prefix_of_rejects hpasses hmoved hrejects
    obtain ⟨sentence, hsentence, hprefix⟩ := hfails.exists_sentence
    refine ⟨sentence, hsentence, List.IsPrefix.trans ?_ hprefix⟩
    rcases List.prefix_or_prefix_of_prefix hstart hinput with hle | hle
    · rcases List.prefix_concat_iff.1 hle with heq | hle
      · exact absurd (heq ▸ List.prefix_rfl) hearlier
      · exact hle.map _
    · exact absurd hle hearlier

/-- **Viable terminals are those admitted** where the word has been passed. -/
theorem Passes.viable_iff_admits (h : Passes (.whole start) tokens passed fresh) (t : Token) :
    start.Viable (tokens.map Token.kind) t.kind ↔ fresh.Admits t :=
  ⟨h.admits_of_viable, h.viable_of_admits⟩

end Agenda

end SccSharp
