import SccSharp.Proofs.Rejection
import SccSharp.Proofs.Runs

/-!
# Runs read by prediction

A run of the analyser does what reading by prediction does, and records it. Where the parts can be
read, the run goes through the tree that is read, from left to right: a rule is opened, its
children follow, and it is closed; a leaf is a token accepted (`Reads.steps`). Where reading fails,
the run accepts the tokens passed and reports the one rejected (`Fails.run`).

Both hold without a limit on the rules open at once, and over every feed, as far as tokens can be
drawn from it. A list of tokens always gives a sentinel in the end (`TokenQueue.leads`), so over
one of these the outcome of a run is decided by its terminals.

## Main Definitions

* `Tree.events`, `Forest.events` — the events of going through a tree
* `TokenQueue.body`, `TokenQueue.sentinel` — the tokens of a queue before its sentinel, and that
* `TokenQueue.cursor` — the cursor that a session over a queue starts with

## Main Statements

* `Reads.steps` — a run goes through the tree that is read
* `Fails.run` — a run reports the token rejected
* `TokenQueue.run_cases` — the two outcomes of a whole input
-/

namespace SccSharp

/-! ### Going through a tree -/

mutual

/-- **The events of going through a tree** from left to right. -/
def Tree.events : Tree Token → List Event
  | .leaf t => [.accepted t]
  | .node r children => .opened r :: (Forest.events children ++ [.closed r])

/-- The events of going through a forest from left to right. -/
def Forest.events : Forest Token → List Event
  | [] => []
  | tree :: rest => tree.events ++ Forest.events rest

end

@[simp] theorem Forest.events_nil : Forest.events [] = [] := rfl

@[simp] theorem Forest.events_leaf (t : Token) (f : Forest Token) :
    Forest.events (.leaf t :: f) = .accepted t :: Forest.events f := rfl

@[simp] theorem Forest.events_node (r : Rule) (children f : Forest Token) :
    Forest.events (.node r children :: f) =
      .opened r :: (Forest.events children ++ .closed r :: Forest.events f) := by
  simp [events, Tree.events]

@[simp] theorem Forest.events_append (f g : Forest Token) :
    Forest.events (f ++ g) = Forest.events f ++ Forest.events g := by
  induction f with
  | nil => rfl
  | cons tree rest ih => simp [Forest.events, ih]

mutual

/-- Going through a tree accepts its leaves. -/
theorem Tree.acceptedTokens_events : (tree : Tree Token) →
    acceptedTokens tree.events = tree.frontier
  | .leaf _ => rfl
  | .node r children => by
      rw [Tree.events, acceptedTokens_opened, acceptedTokens_append, acceptedTokens_closed,
        acceptedTokens_nil, List.append_nil, Forest.acceptedTokens_events children, Tree.frontier]

/-- Going through a forest accepts its leaves. -/
theorem Forest.acceptedTokens_events : (f : Forest Token) →
    acceptedTokens (Forest.events f) = Forest.frontier f
  | [] => rfl
  | tree :: rest => by
      rw [Forest.events, acceptedTokens_append, tree.acceptedTokens_events,
        Forest.acceptedTokens_events rest, Forest.frontier]

end

/-! ### Terminals ahead -/

section Leads

variable {σ ε : Type} [Feed σ ε] {front front' : Token × σ} {tokens : List Token}

/-- The lookahead is the first token on the way, or the one after it. -/
theorem Feed.Leads.kind_front (h : Leads front tokens front') :
    front.1.kind = (tokens.map Token.kind).headD front'.1.kind := by
  cases h <;> rfl

/-- The lookahead in front of the leaves of a forest. -/
theorem Feed.Leads.kind_ahead {f : Forest Token} (h : Leads front (Forest.frontier f) front') :
    front.1.kind = Forest.ahead (Forest.map Token.kind f) front'.1.kind := by
  rw [Forest.ahead, Forest.frontier_map]
  exact h.kind_front

/-- The terminals on the way can be stopped at. -/
theorem Feed.Leads.exists_stop {word rest : List Terminal} {next : Terminal}
    (h : Leads front tokens front')
    (kinds : word ++ next :: rest = tokens.map Token.kind ++ [front'.1.kind]) :
    ∃ first middle, Leads front first middle ∧ first.map Token.kind = word ∧
      middle.1.kind = next ∧ first ++ [middle.1] <+: tokens ++ [front'.1] := by
  induction h generalizing word with
  | refl front =>
      cases word with
      | nil =>
          exact ⟨[], front, .refl front, rfl, (List.cons.inj kinds).1.symm, List.prefix_rfl⟩
      | cons t word =>
          have hnil := (List.cons.inj kinds).2
          exact absurd hnil (by simp)
  | @pass a b s s' tokens front hdraw hleads ih =>
      cases word with
      | nil =>
          exact ⟨[], (a, s), .refl _, rfl, (List.cons.inj kinds).1.symm, _, rfl⟩
      | cons t word =>
          obtain ⟨rfl, hkinds⟩ := List.cons.inj kinds
          obtain ⟨first, middle, hfirst, hword, hnext, hstart⟩ := ih hkinds
          exact ⟨a :: first, middle, .pass hdraw hfirst, by rw [List.map_cons, hword], hnext,
            List.cons_prefix_cons.2 ⟨rfl, hstart⟩⟩

end Leads

/-- A forest of tokens that is a leaf and more, by its terminals. -/
theorem Forest.map_eq_leaf_cons {f : Forest Token} {t : Terminal} {g : Forest Terminal}
    (h : Forest.map Token.kind f = .leaf t :: g) :
    ∃ token rest, f = .leaf token :: rest ∧ token.kind = t ∧ Forest.map Token.kind rest = g := by
  cases f with
  | nil => cases h
  | cons tree rest =>
      cases tree with
      | leaf token =>
          cases h
          exact ⟨token, rest, rfl, rfl, rfl⟩
      | node => cases h

/-- A forest of tokens that is a node and more, by its terminals. -/
theorem Forest.map_eq_node_cons {f : Forest Token} {r : Rule} {children g : Forest Terminal}
    (h : Forest.map Token.kind f = .node r children :: g) :
    ∃ named rest, f = .node r named :: rest ∧ Forest.map Token.kind named = children ∧
      Forest.map Token.kind rest = g := by
  cases f with
  | nil => cases h
  | cons tree rest =>
      cases tree with
      | leaf => cases h
      | node r named =>
          cases h
          exact ⟨named, rest, rfl, rfl, rfl⟩

/-- Reading one rule gives one tree. -/
theorem Reads.exists_singleton {r : Rule} {named : Forest Token} {next : Terminal}
    (h : Reads [.rule r] (Forest.map Token.kind named) next) : ∃ tree, named = [tree] := by
  obtain ⟨children, hnode, -⟩ := Form.derives_rule.1 (reads_rule_iff_longest.1 h)
  obtain ⟨inside, rest, rfl, -, hrest⟩ := Forest.map_eq_node_cons hnode
  cases rest with
  | nil => exact ⟨_, rfl⟩
  | cons tree rest => cases hrest

/-! ### Runs -/

section Runs

open Cursor

variable {σ ε : Type} [Feed σ ε]

/-- Steps through the production of a rule are steps through the rule. -/
theorem Cursor.Steps.around {c : Cursor σ} {r : Rule} {body : List Part} {agenda : Agenda}
    {tokens : List Token} {events : List Event} {front : Token × σ}
    (predicted : r.body c.lookahead.kind = .ok body)
    (inside : Steps none (c.emit (.opened r))
      (body.map .part ++ .close ⟨r, c.lookahead.line⟩ :: agenda)
      ((c.emit (.opened r)).after tokens events front)
      (.close ⟨r, c.lookahead.line⟩ :: agenda)) :
    Steps none c (.part (.rule r) :: agenda)
      (c.after tokens (.opened r :: (events ++ [.closed r])) front) agenda := by
  have hclose : Steps none ((c.emit (.opened r)).after tokens events front)
      (.close ⟨r, c.lookahead.line⟩ :: agenda)
      (c.after tokens (.opened r :: (events ++ [.closed r])) front) agenda := by
    refine .step .close ?_
    rw [emit_eq_after, emit_eq_after]
    simp only [after_after, front_after, List.nil_append, List.append_nil, List.cons_append]
    exact .refl
  exact .step (.opening (mayOpen_none _) predicted) (inside.trans hclose)

/-- **A run goes through the tree that is read.** -/
theorem Reads.steps {parts : List Part} {f : Forest Terminal} {next : Terminal}
    (h : Reads parts f next) (c : Cursor σ) {named : Forest Token} {front : Token × σ}
    (hnamed : Forest.map Token.kind named = f) (hnext : front.1.kind = next)
    (leads : Feed.Leads c.front (Forest.frontier named) front) (agenda : Agenda) :
    Cursor.Steps none c (parts.map .part ++ agenda)
      (c.after (Forest.frontier named) (Forest.events named) front) agenda := by
  induction h generalizing c named front agenda with
  | nil =>
      cases named with
      | nil =>
          cases leads
          exact .refl
      | cons tree rest => cases hnamed
  | terminal _ ih =>
      obtain ⟨token, rest, rfl, rfl, hrest⟩ := Forest.map_eq_leaf_cons hnamed
      rw [Forest.frontier_leaf] at leads ⊢
      cases leads with
      | @pass _ lookahead _ feed _ _ hdraw hleads =>
          refine .step (.accept hdraw) ?_
          have hsteps := ih (c.after [c.lookahead] [.accepted c.lookahead] (lookahead, feed)) hrest
            hnext hleads agenda
          rw [after_after] at hsteps
          exact hsteps
  | @rule r body parts children g next hbody _ _ ihChildren ih =>
      obtain ⟨named, rest, rfl, hchildren, hrest⟩ := Forest.map_eq_node_cons hnamed
      rw [Forest.frontier_node] at leads ⊢
      obtain ⟨middle, hfirst, hsecond⟩ := leads.of_append
      -- the lookahead after the rule is the terminal that its reading was in front of
      have hmiddle : middle.1.kind = Forest.ahead g next := by
        rw [hsecond.kind_ahead, hrest, hnext]
      have hpredicted : r.body c.lookahead.kind = .ok body := by
        rw [← hbody, ← hmiddle, ← hchildren, ← hfirst.kind_ahead]
        rfl
      have hinside := ihChildren (c.emit (.opened r)) hchildren hmiddle hfirst
        (.close ⟨r, c.lookahead.line⟩ :: (parts.map .part ++ agenda))
      refine (Steps.around hpredicted hinside).trans ?_
      have hsteps := ih (c.after (Forest.frontier named)
        (.opened r :: (Forest.events named ++ [.closed r])) middle) hrest hnext hsecond agenda
      rw [after_after] at hsteps
      rw [Forest.events_node]
      simpa using hsteps
  | @continuation k parts f next _ ih =>
      have hahead : c.lookahead.kind = Forest.ahead f next := by
        rw [← hnext, ← hnamed, ← leads.kind_ahead]
        rfl
      refine .step .continuation ?_
      have hsteps := ih c hnamed hnext leads agenda
      rw [← hahead, List.map_append, List.append_assoc] at hsteps
      exact hsteps

/-- Steps through a rule that is read. -/
theorem Reads.steps_rule {r : Rule} {body : List Part} {children : Forest Token}
    {c : Cursor σ} {front : Token × σ}
    (predicted : r.body (Forest.ahead (Forest.map Token.kind children) front.1.kind) = .ok body)
    (h : Reads body (Forest.map Token.kind children) front.1.kind)
    (leads : Feed.Leads c.front (Forest.frontier children) front) (agenda : Agenda) :
    Cursor.Steps none c (.part (.rule r) :: agenda)
      (c.after (Forest.frontier children)
        (.opened r :: (Forest.events children ++ [.closed r])) front) agenda := by
  rw [← leads.kind_ahead] at predicted
  exact Steps.around predicted (h.steps (c.emit (.opened r)) rfl rfl leads _)

/-- **A run reports the token rejected** where reading fails, after the tokens passed. -/
theorem Fails.run {parts : List Part} {word : List Terminal} {found : Terminal}
    (h : Fails parts word found) (c : Cursor σ) {tokens : List Token} {front : Token × σ}
    (hword : tokens.map Token.kind = word) (hfound : front.1.kind = found)
    (leads : Feed.Leads c.front tokens front) (agenda : Agenda) :
    ∃ e events, c.run none (parts.map .part ++ agenda) =
        (some (.syntaxError e), c.after tokens events front) ∧
      e.found = front.1 ∧ acceptedTokens events = tokens := by
  induction h generalizing c tokens front agenda with
  | mismatch hne =>
      obtain rfl := List.map_eq_nil_iff.1 hword
      cases leads
      subst hfound
      exact ⟨_, [.rejected _ _], run_of_halts (.mismatch hne), rfl, rfl⟩
  | choice hchoice =>
      obtain rfl := List.map_eq_nil_iff.1 hword
      cases leads
      subst hfound
      exact ⟨_, [.opened _, .rejected _ _], run_of_halts (.choice (mayOpen_none _) hchoice),
        rfl, rfl⟩
  | terminal _ ih =>
      obtain ⟨token, rest, rfl, rfl, hrest⟩ := List.map_eq_cons_iff.1 hword
      cases leads with
      | @pass _ lookahead _ feed _ _ hdraw hleads =>
          obtain ⟨e, events, hrun, he, hevents⟩ :=
            ih (c.after [c.lookahead] [.accepted c.lookahead] (lookahead, feed)) hrest hfound
              hleads agenda
          refine ⟨e, .accepted c.lookahead :: events, ?_, he, ?_⟩
          · rw [after_after] at hrun
            exact (run_of_step (.accept hdraw)).trans hrun
          · rw [acceptedTokens_accepted, hevents]
  | @inside r body parts word found hbody _ ih =>
      have hpredicted : r.body c.lookahead.kind = .ok body := by
        rw [← hbody, ← hword, ← hfound, ← leads.kind_front]
        rfl
      obtain ⟨e, events, hrun, he, hevents⟩ := ih (c.emit (.opened r)) hword hfound leads
        (.close ⟨r, c.lookahead.line⟩ :: (parts.map .part ++ agenda))
      refine ⟨e, .opened r :: events, ?_, he, hevents⟩
      rw [emit_eq_after, after_after] at hrun
      exact (run_of_step (.opening (mayOpen_none _) hpredicted)).trans hrun
  | @after r body parts children word found hbody hchildren _ ih =>
      obtain ⟨first, second, rfl, hfirst, hsecond⟩ := List.map_eq_append_iff.1 hword
      -- the rules read before the failure are gone through as in a success
      obtain ⟨named, rfl, rfl⟩ := Forest.exists_map_eq children hfirst.symm
      obtain ⟨middle, hleads, hlater⟩ := leads.of_append
      rw [← hsecond, ← hfound, ← hlater.kind_front] at hbody hchildren
      obtain ⟨e, events, hrun, he, hevents⟩ := ih (c.after (Forest.frontier named)
        (.opened r :: (Forest.events named ++ [.closed r])) middle) hsecond hfound hlater agenda
      refine ⟨e, .opened r :: (Forest.events named ++ [.closed r]) ++ events, ?_, he, ?_⟩
      · rw [after_after] at hrun
        exact (run_of_steps (hchildren.steps_rule hbody hleads _)).trans hrun
      · simp [Forest.acceptedTokens_events, hevents]
  | @continuation k parts word found _ ih =>
      have hahead : c.lookahead.kind = word.headD found := by
        rw [← hword, ← hfound, ← leads.kind_front]
        rfl
      obtain ⟨e, events, hrun, he, hevents⟩ := ih c hword hfound leads agenda
      refine ⟨e, events, ?_, he, hevents⟩
      rw [← hahead, List.map_append, List.append_assoc] at hrun
      exact (run_of_step .continuation).trans hrun

end Runs

/-! ### Lists of tokens -/

namespace TokenQueue

/-- **The tokens of a queue** in front of its sentinel. -/
def body (q : TokenQueue) : List Token :=
  q.tokens.takeWhile fun t => t.kind ≠ .eof

/-- **The sentinel of a queue**: the first one in the list, or the one made up for its end, on the
line of the last token. -/
def sentinel (q : TokenQueue) : Token :=
  (q.tokens.find? fun t => t.kind = .eof).getD
    (.endOfInput ((q.body.map Token.line).getLastD q.lastLine))

/-- The terminals of a queue in front of its sentinel. -/
def word (q : TokenQueue) : List Terminal :=
  q.body.map Token.kind

theorem kind_sentinel (q : TokenQueue) : q.sentinel.kind = .eof := by
  rw [sentinel]
  cases hfind : q.tokens.find? fun t => t.kind = .eof with
  | none => rfl
  | some t => simpa using List.find?_some hfind

theorem eof_not_mem_word (q : TokenQueue) : .eof ∉ q.word := by
  intro hmem
  obtain ⟨t, ht, hkind⟩ := List.mem_map.1 hmem
  have hall := List.all_eq_true.1 List.all_takeWhile t ht
  simp [hkind] at hall

/-- **A draw gives the sentinel for ever, or the first token of the queue**, and leaves the others
in front of the same sentinel. -/
theorem draw_cases (q : TokenQueue) :
    (q.body = [] ∧ q.draw = (q.sentinel, q)) ∨
      (q.body = q.draw.1 :: q.draw.2.body ∧ q.sentinel = q.draw.2.sentinel) := by
  obtain ⟨tokens, lastLine⟩ := q
  cases tokens with
  | nil => exact .inl ⟨rfl, rfl⟩
  | cons t tokens =>
      by_cases ht : t.kind = .eof
      · exact .inl ⟨by simp [body, ht], by simp [draw, sentinel, ht]⟩
      · have hbody : body ⟨t :: tokens, lastLine⟩ = t :: body ⟨tokens, t.line⟩ := by
          simp [body, ht]
        have hsentinel : sentinel ⟨t :: tokens, lastLine⟩ = sentinel ⟨tokens, t.line⟩ := by
          have hfind : (t :: tokens).find? (fun t => t.kind = .eof) =
              tokens.find? fun t => t.kind = .eof := List.find?_cons_of_neg (by simpa using ht)
          simp only [sentinel, hbody, List.map_cons, List.getLastD_cons, hfind]
        have hdraw : draw ⟨t :: tokens, lastLine⟩ = (t, ⟨tokens, t.line⟩) := by
          simp [draw, ht]
        rw [hdraw]
        exact .inr ⟨hbody, hsentinel⟩

/-- **A queue leads to its sentinel**, and from there on to nothing else. -/
theorem leads (q : TokenQueue) :
    ∃ rest : TokenQueue, Feed.Leads q.draw q.body (q.sentinel, rest) ∧
      rest.draw = (q.sentinel, rest) := by
  induction hbody : q.body generalizing q with
  | nil =>
      rcases q.draw_cases with ⟨-, hdraw⟩ | ⟨hcons, -⟩
      · exact ⟨q, hdraw ▸ .refl _, hdraw⟩
      · rw [hbody] at hcons
        cases hcons
  | cons t rest ih =>
      rcases q.draw_cases with ⟨hnil, -⟩ | ⟨hcons, hsentinel⟩
      · rw [hbody] at hnil
        cases hnil
      · rw [hbody] at hcons
        obtain ⟨rfl, hrest⟩ := List.cons.inj hcons
        obtain ⟨last, hleads, hlast⟩ := ih q.draw.2 hrest.symm
        rw [hsentinel]
        exact ⟨last, .pass rfl hleads, hlast⟩

/-- The cursor that a session over a queue starts with. -/
def cursor (q : TokenQueue) (sink : Sink) : Cursor TokenQueue where
  feed := q.draw.2
  lookahead := q.draw.1
  sink := sink

@[simp] theorem front_cursor (q : TokenQueue) (sink : Sink) : (q.cursor sink).front = q.draw := rfl

/-- The outcome on a sentence: the run goes through the tree read and accepts the sentinel. -/
theorem run_of_reads (q : TokenQueue) (sink : Sink) {r : Rule} {f : Forest Terminal}
    (h : Reads [.rule r] f .eof) (hword : Forest.frontier f = q.word) :
    ∃ (named : Forest Token) (rest : TokenQueue), Forest.map Token.kind named = f ∧
      Forest.frontier named = q.body ∧
      (q.cursor sink).run none [.part (.rule r), .part (.terminal .eof)] =
        (none, (q.cursor sink).after (q.body ++ [q.sentinel])
          (Forest.events named ++ [.accepted q.sentinel]) (q.sentinel, rest)) := by
  obtain ⟨named, hnamed, hbody⟩ := Forest.exists_map_eq f hword
  obtain ⟨rest, hleads, hrest⟩ := q.leads
  refine ⟨named, rest, hnamed, hbody, ?_⟩
  have hdraw : Feed.draw rest = (.ok q.sentinel, rest) := by
    show (Except.ok rest.draw.1, rest.draw.2) = _
    rw [hrest]
  have hmap : Forest.map Token.kind (named ++ [.leaf q.sentinel]) = f ++ [.leaf .eof] := by
    rw [Forest.map_append, hnamed, Forest.map, Tree.map, q.kind_sentinel, Forest.map]
  have hfrontier : Forest.frontier (named ++ [.leaf q.sentinel]) = q.body ++ [q.sentinel] := by
    rw [Forest.frontier_append, hbody, Forest.frontier_leaf, Forest.frontier_nil]
  have hevents : Forest.events (named ++ [.leaf q.sentinel]) =
      Forest.events named ++ [.accepted q.sentinel] := by
    rw [Forest.events_append, Forest.events_leaf, Forest.events_nil]
  have hwhole := hleads.append (.pass hdraw (.refl _))
  rw [← hfrontier] at hwhole
  have hsteps := h.append_eof.steps (q.cursor sink) hmap q.kind_sentinel hwhole []
  rw [hfrontier, hevents] at hsteps
  exact (Cursor.run_of_steps hsteps).trans (Cursor.run_of_halts .done)

/-- The outcome on any other word: the run reports the terminal at which reading fails. -/
theorem run_of_fails (q : TokenQueue) (sink : Sink) {r : Rule} {passed rest : List Terminal}
    {found : Terminal} (h : Fails [.rule r, .terminal .eof] passed found)
    (hword : passed ++ found :: rest = q.word ++ [.eof]) :
    ∃ e events front, (q.cursor sink).run none [.part (.rule r), .part (.terminal .eof)] =
        (some (.syntaxError e), (q.cursor sink).after (acceptedTokens events) events front) ∧
      (acceptedTokens events).map Token.kind = passed ∧ e.found.kind = found ∧
      acceptedTokens events ++ [e.found] <+: q.body ++ [q.sentinel] := by
  obtain ⟨last, hleads, -⟩ := q.leads
  rw [← q.kind_sentinel, word] at hword
  obtain ⟨first, middle, hfirst, hpassed, hfound, hstart⟩ := hleads.exists_stop hword
  obtain ⟨e, events, hrun, he, rfl⟩ := h.run (q.cursor sink) hpassed hfound hfirst []
  rw [← he] at hfound hstart
  exact ⟨e, events, middle, hrun, hpassed, hfound, hstart⟩

/-- **A whole input has one of two outcomes**: its tree is gone through and the sentinel accepted,
or a token is rejected where reading fails. -/
theorem run_cases (q : TokenQueue) (sink : Sink) (r : Rule) :
    (∃ (named : Forest Token) (rest : TokenQueue),
      Reads [.rule r] (Forest.map Token.kind named) .eof ∧ Forest.frontier named = q.body ∧
        (q.cursor sink).run none [.part (.rule r), .part (.terminal .eof)] =
          (none, (q.cursor sink).after (q.body ++ [q.sentinel])
            (Forest.events named ++ [.accepted q.sentinel]) (q.sentinel, rest))) ∨
    ∃ (e : SyntaxError) (events : List Event) (front : Token × TokenQueue),
      Fails [.rule r, .terminal .eof] ((acceptedTokens events).map Token.kind) e.found.kind ∧
        acceptedTokens events ++ [e.found] <+: q.body ++ [q.sentinel] ∧
        (q.cursor sink).run none [.part (.rule r), .part (.terminal .eof)] =
          (some (.syntaxError e),
            (q.cursor sink).after (acceptedTokens events) events front) := by
  rcases sentence_or_fails r q.eof_not_mem_word with hsentence | hrejected
  · obtain ⟨f, hreads, hword⟩ := Rule.sentence_iff.1 hsentence
    obtain ⟨named, rest, rfl, hbody, hrun⟩ := q.run_of_reads sink hreads hword
    exact .inl ⟨named, rest, hreads, hbody, hrun⟩
  · obtain ⟨passed, found, later, hfails, hword⟩ := hrejected
    obtain ⟨e, events, front, hrun, rfl, rfl, hstart⟩ := q.run_of_fails sink hfails hword
    exact .inr ⟨e, events, front, hfails, hstart, hrun⟩

end TokenQueue

end SccSharp
