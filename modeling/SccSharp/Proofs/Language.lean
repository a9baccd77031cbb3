import SccSharp.Proofs.Recognition

/-!
# The language recognised

The analyser recognises its grammar. Over a list of tokens it succeeds exactly on the sentences of
the start rule, and one rule on its own takes exactly the words that the rule derives in front of
the terminal after them, where optional parts and repetitions end only if they could not have gone
on. What it records of a success is the derivation tree, of which there is only one. What it
rejects is the first token that no sentence has at that place.

A limit on the rules open at once plays no part in this: a success or a syntax error under a limit
is the one that there is without a limit.

## Main Statements

* `recognition_exact` — the words accepted are the words derived
* `syntaxError_earliest` — a syntax error is found as early as it can be
* `events_derivation_tree` — the events of a success are the derivation tree
-/

namespace SccSharp

/-! ### Whole inputs -/

section Parse

variable {limit : Option Nat} {q : TokenQueue} {sink : Sink} {r : Rule} {a : Analyser TokenQueue}

/-- A session over a queue is a run from its first cursor. -/
theorem parse_fresh : (Analyser.fresh q sink).parse limit r =
    (((q.cursor sink).parse limit r).1, .started ((q.cursor sink).parse limit r).2) := rfl

/-- A session that succeeds is a run that does, with the event of it. -/
theorem parse_eq_none_iff : (Analyser.fresh q sink).parse limit r = (none, a) ↔
    ∃ d, (q.cursor sink).run limit [.part (.rule r), .part (.terminal .eof)] = (none, d) ∧
      a = .started (d.emit .succeeded) := by
  rw [parse_fresh, Cursor.parse_eq]
  cases hrun : (q.cursor sink).run limit [.part (.rule r), .part (.terminal .eof)] with
  | mk stop d =>
      cases stop with
      | none => simp [eq_comm]
      | some stop => simp

/-- A session that stops is a run that does. -/
theorem parse_eq_some_iff {stop : Stop Empty} :
    (Analyser.fresh q sink).parse limit r = (some stop, a) ↔
      ∃ d, (q.cursor sink).run limit [.part (.rule r), .part (.terminal .eof)] = (some stop, d) ∧
        a = .started d := by
  rw [parse_fresh, Cursor.parse_eq]
  cases hrun : (q.cursor sink).run limit [.part (.rule r), .part (.terminal .eof)] with
  | mk stop' d =>
      cases stop' with
      | none => simp
      | some stop' => simp [eq_comm, and_assoc]

/-- A session that succeeds goes through the tree of a sentence and accepts the sentinel. -/
theorem exists_reads_of_parse (h : (Analyser.fresh q sink).parse limit r = (none, a)) :
    ∃ (named : Forest Token) (rest : TokenQueue),
      Reads [.rule r] (Forest.map Token.kind named) .eof ∧ Forest.frontier named = q.body ∧
        a = .started ((q.cursor sink).after (q.body ++ [q.sentinel])
          (Forest.events named ++ [.accepted q.sentinel, .succeeded]) (q.sentinel, rest)) := by
  obtain ⟨d, hrun, rfl⟩ := parse_eq_none_iff.1 h
  have hunlimited := Cursor.run_unlimited hrun nofun
  rcases q.run_cases sink r with ⟨named, rest, hreads, hbody, hread⟩ | ⟨e, _, _, -, -, hfailed⟩
  · rw [hunlimited] at hread
    obtain rfl := (Prod.mk.inj hread).2
    refine ⟨named, rest, hreads, hbody, ?_⟩
    rw [Cursor.emit_eq_after, Cursor.after_after]
    simp
  · rw [hunlimited] at hfailed
    cases hfailed

/-- A session that ends in a syntax error is stuck where reading fails, and the tokens accepted and
the one rejected are what the input starts with. -/
theorem fails_of_parse {e : SyntaxError}
    (h : (Analyser.fresh q .recording).parse limit r = (some (.syntaxError e), a)) :
    Fails [.rule r, .terminal .eof] ((acceptedTokens a.sink.events).map Token.kind) e.found.kind ∧
      acceptedTokens a.sink.events ++ [e.found] <+: q.body ++ [q.sentinel] := by
  obtain ⟨d, hrun, rfl⟩ := parse_eq_some_iff.1 h
  have hunlimited := Cursor.run_unlimited hrun nofun
  rcases q.run_cases .recording r with
    ⟨_, _, -, -, hread⟩ | ⟨e', events, front, hfails, hstart, hfailed⟩
  · rw [hunlimited] at hread
    cases hread
  · rw [hunlimited] at hfailed
    cases hfailed
    have hevents : ((q.cursor .recording).after (acceptedTokens events) events front).sink.events =
        events := Sink.events_emitAll_recording events
    rw [Analyser.sink, hevents]
    exact ⟨hfails, hstart⟩

/-- **Sentences are what is accepted.** -/
theorem parse_iff_sentence (q : TokenQueue) (sink : Sink) (r : Rule) :
    ((Analyser.fresh q sink).parse none r).1 = none ↔ r.Sentence q.word := by
  constructor
  · intro h
    obtain ⟨named, rest, hreads, hbody, -⟩ := exists_reads_of_parse (Prod.ext h rfl)
    refine Rule.sentence_iff.2 ⟨_, hreads, ?_⟩
    rw [Forest.frontier_map, hbody, TokenQueue.word]
  · intro h
    obtain ⟨f, hreads, hword⟩ := Rule.sentence_iff.1 h
    obtain ⟨named, rest, -, -, hrun⟩ := q.run_of_reads sink hreads hword
    rw [parse_eq_none_iff.2 ⟨_, hrun, rfl⟩]

end Parse

/-! ### Rules on their own -/

/-- A cursor over a queue leads to a sentinel. -/
theorem Cursor.leads (c : Cursor TokenQueue) : ∃ tokens last,
    Feed.Leads c.front tokens last ∧ last.1.kind = .eof := by
  obtain ⟨rest, hleads, -⟩ := c.feed.leads
  exact ⟨_, _, .pass rfl hleads, c.feed.kind_sentinel⟩

/-- **A rule on its own takes the words it derives** in front of the terminal after them, with the
longest endings. -/
theorem Cursor.derive_iff {c : Cursor TokenQueue} {r : Rule} {word : List Token}
    {front : Token × TokenQueue} (leads : Feed.Leads c.front word front) :
    (∃ d, c.derive none r = (none, d) ∧ d.front = front ∧
      d.consumed = c.consumed + word.length) ↔
        r.Derives .longest (word.map Token.kind) front.1.kind := by
  rw [Rule.derives_longest_iff]
  constructor
  · rintro ⟨d, hrun, -, hconsumed⟩
    obtain ⟨tokens, last, hleads, hlast⟩ := c.leads
    have hend : .eof ∈ tokens.map Token.kind ++ [last.1.kind] :=
      List.mem_append_right _ (by simp [hlast])
    rcases reads_or_fails [.rule r] _ hend (by simp) with
      ⟨f, next, rest, hreads, hkinds, -⟩ | ⟨passed, found, rest, hfails, hkinds⟩
    -- the run goes as far as reading does, and that must be the end of the word
    · obtain ⟨first, middle, hfirst, hword, rfl, -⟩ := hleads.exists_stop hkinds
      obtain ⟨named, rfl, rfl⟩ := Forest.exists_map_eq f hword.symm
      have hread := (Cursor.run_of_steps (hreads.steps c rfl rfl hfirst [])).trans
        (Cursor.run_of_halts .done)
      obtain rfl := (Prod.mk.inj (hrun.symm.trans hread)).2
      have hlength : (Forest.frontier named).length = word.length := Nat.add_left_cancel hconsumed
      obtain ⟨rfl, rfl⟩ := hfirst.unique leads hlength
      exact ⟨_, hreads, hword.symm⟩
    · obtain ⟨first, middle, hfirst, hpassed, hfound, -⟩ := hleads.exists_stop hkinds
      obtain ⟨e, events, hfailed, -⟩ := hfails.run c hpassed hfound hfirst []
      cases hrun.symm.trans hfailed
  · rintro ⟨f, hreads, hword⟩
    obtain ⟨named, rfl, rfl⟩ := Forest.exists_map_eq f hword
    have hread := (Cursor.run_of_steps (hreads.steps c rfl rfl leads [])).trans
      (Cursor.run_of_halts .done)
    exact ⟨_, hread, rfl, rfl⟩

/-! ### The analyser and its grammar -/

/-- **The analyser accepts its grammar and nothing else.** A whole input is accepted if it is a
sentence of the start rule, and then all its tokens are accepted, in order, and the sentinel after
them. A rule on its own takes a word, and no more, if it derives the word in front of the terminal
that follows it with the longest endings. -/
theorem recognition_exact (r : Rule) :
    (∀ (q : TokenQueue) (sink : Sink),
      ((Analyser.fresh q sink).parse none r).1 = none ↔ r.Sentence q.word) ∧
    (∀ (q : TokenQueue) (a : Analyser TokenQueue),
      (Analyser.fresh q .recording).parse none r = (none, a) →
        acceptedTokens a.sink.events = q.body ++ [q.sentinel] ∧
          a.consumed = (q.body ++ [q.sentinel]).length) ∧
    ∀ (c : Cursor TokenQueue) (word : List Token) (front : Token × TokenQueue),
      Feed.Leads c.front word front →
        ((∃ d, (Analyser.started c).derive none r = (none, .started d) ∧ d.front = front ∧
          d.consumed = c.consumed + word.length) ↔
            r.Derives .longest (word.map Token.kind) front.1.kind) := by
  refine ⟨fun q sink => parse_iff_sentence q sink r, ?_, ?_⟩
  · intro q a h
    obtain ⟨named, rest, -, hbody, rfl⟩ := exists_reads_of_parse h
    constructor
    · show acceptedTokens (Sink.recording.emitAll _).events = _
      rw [Sink.events_emitAll_recording, acceptedTokens_append, Forest.acceptedTokens_events, hbody]
      rfl
    · exact Nat.zero_add _
  · intro c word front hleads
    have hderive : ∀ d, (Analyser.started c).derive none r = (none, .started d) ↔
        c.derive none r = (none, d) := by
      intro d
      rw [Analyser.derive]
      cases hrun : c.derive none r with
      | mk stop d' => simp
    simp only [hderive]
    exact Cursor.derive_iff hleads

/-- Two arguments on two lines. -/
def twoArguments : TokenQueue :=
  ⟨[⟨.identifier, "a", 1⟩, ⟨.comma, ",", 1⟩, ⟨.identifier, "b", 2⟩], 1⟩

/-- They are read as an argument list with another one in it. -/
theorem reads_twoArguments :
    Reads [.rule .argumentList] [.node .argumentList [.leaf .identifier, .leaf .comma,
      .node .argumentList [.leaf .identifier]]] .eof := by
  refine .rule rfl (.terminal (.continuation (.terminal ?_))) (.nil .eof)
  exact .rule rfl (.terminal (.continuation (.nil .eof))) (.nil .eof)

/-- They are accepted. -/
theorem parse_twoArguments :
    ((Analyser.fresh twoArguments .recording).parse none .argumentList).1 = none :=
  (parse_iff_sentence _ _ _).2 (Rule.sentence_iff.2 ⟨_, reads_twoArguments, rfl⟩)

/-- The three parts of it on two arguments. -/
theorem recognition_exact_twoArguments :
    Rule.argumentList.Sentence twoArguments.word ∧
      acceptedTokens ((Analyser.fresh twoArguments .recording).parse none
        .argumentList).2.sink.events = twoArguments.body ++ [twoArguments.sentinel] ∧
      ∃ d, (Analyser.started (twoArguments.cursor .discard)).derive none .argumentList =
        (none, .started d) ∧ d.front = (.endOfInput 2, ⟨[], 2⟩) ∧ d.consumed = 3 := by
  have hleads : Feed.Leads (twoArguments.cursor .discard).front twoArguments.tokens
      (.endOfInput 2, ⟨[], 2⟩) := .pass rfl (.pass rfl (.pass rfl (.refl _)))
  have hword : Rule.argumentList.Derives .longest (twoArguments.tokens.map Token.kind) .eof :=
    Rule.derives_longest_iff.2 ⟨_, reads_twoArguments, rfl⟩
  obtain ⟨hsentence, haccepted, hderives⟩ := recognition_exact .argumentList
  refine ⟨(hsentence twoArguments .recording).1 parse_twoArguments, ?_, ?_⟩
  · exact (haccepted twoArguments _ (Prod.ext parse_twoArguments rfl)).1
  · exact (hderives _ _ _ hleads).2 hword

/-- **A syntax error is found as early as it can be.** The tokens accepted and the one rejected are
what the input starts with; what was accepted is the start of a sentence, and no sentence goes on
with the terminal rejected. -/
theorem syntaxError_earliest {limit : Option Nat} {q : TokenQueue} {r : Rule} {e : SyntaxError}
    {a : Analyser TokenQueue}
    (h : (Analyser.fresh q .recording).parse limit r = (some (.syntaxError e), a)) :
    acceptedTokens a.sink.events ++ [e.found] <+: q.body ++ [q.sentinel] ∧
      (∃ sentence, r.Sentence sentence ∧
        (acceptedTokens a.sink.events).map Token.kind <+: sentence ++ [.eof]) ∧
      ¬ ∃ sentence, r.Sentence sentence ∧
        (acceptedTokens a.sink.events).map Token.kind ++ [e.found.kind] <+: sentence ++ [.eof] := by
  obtain ⟨hfails, hstart⟩ := fails_of_parse h
  refine ⟨hstart, hfails.exists_sentence, ?_⟩
  rintro ⟨sentence, hsentence, hgoes⟩
  exact hfails.not_prefix_sentence hsentence hgoes

/-- An argument and two commas. -/
def twoCommas : TokenQueue :=
  ⟨[⟨.identifier, "a", 1⟩, ⟨.comma, ",", 1⟩, ⟨.comma, ",", 2⟩], 1⟩

/-- They are no argument list. -/
theorem exists_syntaxError_twoCommas :
    ∃ e a, (Analyser.fresh twoCommas .recording).parse none .argumentList =
      (some (.syntaxError e), a) := by
  have hfails : Fails [.rule .argumentList, .terminal .eof] [.identifier, .comma] .comma :=
    .inside rfl (.terminal (.continuation (.terminal (.inside rfl (.mismatch (by decide))))))
  obtain ⟨e, events, front, hrun, -⟩ := twoCommas.run_of_fails .recording hfails rfl
  exact ⟨e, _, parse_eq_some_iff.2 ⟨_, hrun, rfl⟩⟩

/-- No argument list goes on with the second comma. -/
theorem syntaxError_earliest_twoCommas :
    ∃ e a, (Analyser.fresh twoCommas .recording).parse none .argumentList =
        (some (.syntaxError e), a) ∧
      ¬ ∃ sentence, Rule.argumentList.Sentence sentence ∧
        (acceptedTokens a.sink.events).map Token.kind ++ [e.found.kind] <+: sentence ++ [.eof] := by
  obtain ⟨e, a, hparse⟩ := exists_syntaxError_twoCommas
  exact ⟨e, a, hparse, (syntaxError_earliest hparse).2.2⟩

/-- **The events of a success are the derivation tree.** There is one derivation tree of the input
and no other, the events go through it from left to right, and acceptance of the sentinel and
success follow. -/
theorem events_derivation_tree {limit : Option Nat} {q : TokenQueue} {r : Rule}
    {a : Analyser TokenQueue}
    (h : (Analyser.fresh q .recording).parse limit r = (none, a)) :
    ∃ tree : Tree Token, tree.frontier = q.body ∧
      a.sink.events = tree.events ++ [.accepted q.sentinel, .succeeded] ∧
      Tree.Derivation r (tree.map Token.kind) .eof ∧
      ∀ other, Tree.Derivation r other .eof → other.frontier = q.word →
        other = tree.map Token.kind := by
  obtain ⟨named, rest, hreads, hbody, rfl⟩ := exists_reads_of_parse h
  obtain ⟨tree, rfl⟩ := hreads.exists_singleton
  have hfrontier : tree.frontier = q.body := by
    rw [← hbody, Forest.frontier, Forest.frontier_nil, List.append_nil]
  refine ⟨tree, hfrontier, ?_, reads_rule_iff_derivation.1 hreads, ?_⟩
  · show (Sink.recording.emitAll _).events = _
    rw [Sink.events_emitAll_recording, Forest.events, Forest.events_nil, List.append_nil]
  · intro other hother hword
    have hsame : Forest.frontier [other] ++ [.eof] =
        Forest.frontier (Forest.map Token.kind [tree]) ++ [.eof] := by
      rw [Forest.frontier_map, hbody, Forest.frontier, Forest.frontier_nil, List.append_nil, hword,
        TokenQueue.word]
    have hequal := ((reads_rule_iff_derivation.2 hother).unique hreads hsame).1
    exact (List.cons.inj hequal).1

/-- The derivation tree of two arguments. -/
theorem events_derivation_tree_twoArguments :
    ∃ tree : Tree Token, tree.frontier = twoArguments.body ∧
      ((Analyser.fresh twoArguments .recording).parse none .argumentList).2.sink.events =
        tree.events ++ [.accepted twoArguments.sentinel, .succeeded] ∧
      Tree.Derivation .argumentList (tree.map Token.kind) .eof := by
  obtain ⟨tree, hfrontier, hevents, hderivation, -⟩ :=
    events_derivation_tree (Prod.ext parse_twoArguments rfl)
  exact ⟨tree, hfrontier, hevents, hderivation⟩

end SccSharp
