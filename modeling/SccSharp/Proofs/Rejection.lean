import SccSharp.Agenda
import SccSharp.Proofs.Prediction

/-!
# Rejection

`Fails parts word found` says that reading the parts by prediction gets past the word and then
rejects the terminal `found`. On every input that ends with the sentinel, reading either succeeds
or fails somewhere (`reads_or_fails`), never both (`Fails.not_reads`).

A failure comes as early as it can: up to the terminal rejected nothing is wrong yet. Whatever has
been passed can be completed to something the parts derive, in front of any terminal
(`Fails.begins`). The completion may have to revise how the last expression ended: an
expression remainder that was taken to be empty, because a right parenthesis or a semicolon is
ahead, is given an operator and a factor instead, since in the completion another terminal follows.

## Main Definitions

* `Fails` — reading that rejects a terminal

## Main Statements

* `reads_or_fails` — reading succeeds or rejects a terminal
* `Fails.not_reads` — no input that starts with the word and the terminal rejected can be read
* `Fails.begins` — the word passed is the start of something derived
* `sentence_or_fails`, `Fails.exists_sentence`, `Fails.not_prefix_sentence` — the same for whole
  inputs, that is for a rule and the sentinel
-/

namespace SccSharp

/-- **Failing reading**: the parts, the word that has been passed, and the terminal rejected. -/
inductive Fails : List Part → List Terminal → Terminal → Prop where
  | mismatch {t : Terminal} {parts : List Part} {found : Terminal} :
      found ≠ t → Fails (.terminal t :: parts) [] found
  | terminal {t : Terminal} {parts : List Part} {word : List Terminal} {found : Terminal} :
      Fails parts word found → Fails (.terminal t :: parts) (t :: word) found
  | choice {r : Rule} {c : Choice} {parts : List Part} {found : Terminal} :
      r.body found = .error c → Fails (.rule r :: parts) [] found
  | inside {r : Rule} {body parts : List Part} {word : List Terminal} {found : Terminal} :
      r.body (word.headD found) = .ok body → Fails body word found →
        Fails (.rule r :: parts) word found
  | after {r : Rule} {body parts : List Part} {children : Forest Terminal}
      {word : List Terminal} {found : Terminal} :
      r.body (Forest.ahead children (word.headD found)) = .ok body →
        Reads body children (word.headD found) → Fails parts word found →
          Fails (.rule r :: parts) (Forest.frontier children ++ word) found
  | continuation {k : Continuation} {parts : List Part} {word : List Terminal}
      {found : Terminal} :
      Fails (k.body (word.headD found) ++ parts) word found →
        Fails (.continuation k :: parts) word found

/-! ### Success or failure -/

/-- No production asks for the sentinel. -/
theorem Rule.eof_not_mem_body {r : Rule} {seen : Terminal} {body : List Part}
    (predicted : r.body seen = .ok body) : .terminal .eof ∉ body := by
  cases r with
  | statement =>
      cases hkind : seen.statementRule? with
      | none => simp [Rule.body, hkind] at predicted
      | some kind =>
          simp only [Rule.body, hkind] at predicted
          cases predicted
          simp
  | assignmentRemainder | ifRemainder =>
      rw [Rule.body] at predicted
      split at predicted
      all_goals
        cases predicted
        simp
  | expressionRemainder | factor | conditionRemainder | conditionalOperator =>
      rw [Rule.body] at predicted
      repeat' split at predicted
      all_goals cases predicted
      all_goals simp
      all_goals
        rintro rfl
        contradiction
  | statementPart | statementList | assignmentStatement | ifStatement | whileStatement
  | procedureStatement | untilStatement | expression | argumentList | condition =>
      cases predicted
      simp

/-- No continuation asks for the sentinel. -/
theorem Continuation.eof_not_mem_body (k : Continuation) (seen : Terminal) :
    .terminal .eof ∉ k.body seen := by
  by_cases hseen : seen = k.opener
  · rw [hseen, k.body_opener]
    cases k <;> simp [opener, round]
  · rw [body_of_ne hseen]
    exact List.not_mem_nil

/-- More to do is no nearer. -/
theorem Agenda.reach_le_append (first second : Agenda) :
    reach first ≤ reach (first ++ second) := by
  induction first with
  | nil => exact Nat.zero_le _
  | cons task rest ih =>
      rw [List.cons_append]
      cases task with
      | close o => exact Nat.succ_le_succ ih
      | part p =>
          cases p with
          | rule r => exact Nat.add_le_add_right ih _
          | continuation k => exact Nat.succ_le_succ ih
          | terminal t =>
              simp only [reach]
              split
              · exact Nat.succ_le_succ ih
              · exact Nat.le_refl _

/-- The parts of a rule's production are nearer to a terminal than the rule. -/
theorem Rule.reach_body_lt {r : Rule} {seen : Terminal} {body : List Part}
    (predicted : r.body seen = .ok body) (parts : List Part) :
    Agenda.reach (body.map .part) < Agenda.reach ((Part.rule r :: parts).map .part) := by
  calc Agenda.reach (body.map .part)
      ≤ Agenda.reach (body.map .part ++ .close ⟨r, 0⟩ :: parts.map .part) :=
        Agenda.reach_le_append _ _
    _ < Agenda.reach ((Part.rule r :: parts).map .part) :=
        Agenda.reach_body_lt predicted ⟨r, 0⟩ (parts.map .part)

/-- What a continuation stands for is nearer to a terminal than the continuation. -/
theorem Continuation.reach_body_lt (k : Continuation) (seen : Terminal) (parts : List Part) :
    Agenda.reach ((k.body seen ++ parts).map .part) <
      Agenda.reach ((Part.continuation k :: parts).map .part) := by
  rw [List.map_append]
  exact Agenda.reach_continuation_lt k seen (parts.map .part)

/-- A rule is farther from a terminal than what comes after it. -/
theorem Rule.reach_lt_cons (r : Rule) (parts : List Part) :
    Agenda.reach (parts.map .part) < Agenda.reach ((Part.rule r :: parts).map .part) := by
  rw [List.map_cons, Agenda.reach]
  cases r <;> simp [Rule.reach]

/-- **Reading succeeds or rejects a terminal**, on every input that ends with the sentinel. The
recursion is that of the analyser: a terminal passed leaves less input, and everything else brings
the next terminal nearer. -/
theorem reads_or_fails : (parts : List Part) → (input : List Terminal) → .eof ∈ input →
    .terminal .eof ∉ parts →
      (∃ f next rest, Reads parts f next ∧ Forest.frontier f ++ next :: rest = input ∧
        .eof ∈ next :: rest) ∨
      ∃ word found rest, Fails parts word found ∧ word ++ found :: rest = input
  | _, [], hend, _ => by cases hend
  | [], a :: rest, hend, _ => .inl ⟨[], a, rest, .nil a, rfl, hend⟩
  | .terminal t :: parts, a :: rest, hend, hparts => by
      by_cases ha : a = t
      · subst ha
        have hne : .eof ≠ a := by
          rintro rfl
          exact hparts List.mem_cons_self
        have hrest : .eof ∈ rest := (List.mem_cons.1 hend).resolve_left hne
        rcases reads_or_fails parts rest hrest fun h => hparts (List.mem_cons_of_mem _ h) with
          ⟨f, next, later, hf, rfl, hnext⟩ | ⟨word, found, later, hword, rfl⟩
        · exact .inl ⟨.leaf a :: f, next, later, .terminal hf, rfl, hnext⟩
        · exact .inr ⟨a :: word, found, later, .terminal hword, rfl⟩
      · exact .inr ⟨[], a, rest, .mismatch ha, rfl⟩
  | .continuation k :: parts, a :: rest, hend, hparts => by
      have hbody : .terminal .eof ∉ k.body a ++ parts := by
        rw [List.mem_append]
        rintro (h | h)
        · exact k.eof_not_mem_body a h
        · exact hparts (List.mem_cons_of_mem _ h)
      rcases reads_or_fails (k.body a ++ parts) (a :: rest) hend hbody with
        ⟨f, next, later, hf, heq, hnext⟩ | ⟨word, found, later, hword, heq⟩
      · rw [← headD_of_append_eq_cons heq] at hf
        exact .inl ⟨f, next, later, .continuation hf, heq, hnext⟩
      · rw [← headD_of_append_eq_cons heq] at hword
        exact .inr ⟨word, found, later, .continuation hword, heq⟩
  | .rule r :: parts, a :: rest, hend, hparts => by
      cases hbody : r.body a with
      | error c => exact .inr ⟨[], a, rest, .choice hbody, rfl⟩
      | ok body =>
          rcases reads_or_fails body (a :: rest) hend (Rule.eof_not_mem_body hbody) with
            ⟨children, middle, later, hchildren, heq, hmiddle⟩ | ⟨word, found, later, hword, heq⟩
          · have hshorter : (middle :: later).length ≤ (a :: rest).length := by
              rw [← heq, List.length_append]
              exact Nat.le_add_left _ _
            rcases reads_or_fails parts (middle :: later) hmiddle
                (fun h => hparts (List.mem_cons_of_mem _ h)) with
              ⟨f, next, last, hf, heq', hnext⟩ | ⟨word, found, last, hword, heq'⟩
            · rw [← headD_of_append_eq_cons heq] at hbody
              rw [← headD_of_append_eq_cons heq'] at hbody hchildren
              refine .inl ⟨.node r children :: f, next, last, .rule hbody hchildren hf, ?_, hnext⟩
              rw [Forest.frontier_node, List.append_assoc, heq', heq]
            · rw [← headD_of_append_eq_cons heq] at hbody
              rw [← headD_of_append_eq_cons heq'] at hbody hchildren
              refine .inr ⟨Forest.frontier children ++ word, found, last,
                .after hbody hchildren hword, ?_⟩
              rw [List.append_assoc, heq', heq]
          · rw [← headD_of_append_eq_cons heq] at hbody
            exact .inr ⟨word, found, later, .inside hbody hword, heq⟩
termination_by parts input => (input.length, Agenda.reach (parts.map .part))
decreasing_by
  · exact Prod.Lex.left _ _ (Nat.lt_succ_self _)
  · exact Prod.Lex.right _ (k.reach_body_lt a parts)
  · exact Prod.Lex.right _ (Rule.reach_body_lt hbody parts)
  · rcases Nat.lt_or_eq_of_le hshorter with hlt | hsame
    · exact Prod.Lex.left _ _ hlt
    · rw [hsame]
      exact Prod.Lex.right _ (r.reach_lt_cons parts)

/-- **Failure excludes success**: no input that starts with the word passed and the terminal
rejected can be read. -/
theorem Fails.not_reads {parts : List Part} {word : List Terminal} {found : Terminal}
    (hfails : Fails parts word found) {f : Forest Terminal} {next : Terminal}
    {rest rest' : List Terminal} (hreads : Reads parts f next) :
    Forest.frontier f ++ next :: rest ≠ word ++ found :: rest' := by
  intro same
  induction hfails generalizing f next rest rest' with
  | mismatch hne =>
      cases hreads
      exact hne (List.cons.inj same).1.symm
  | terminal _ ih =>
      cases hreads with
      | terminal hreads => exact ih hreads (List.cons.inj same).2
  | choice herror =>
      cases hreads with
      | @rule _ _ _ children g _ hbody =>
          have hahead := headD_eq_of_append same
          rw [← Forest.ahead, Forest.ahead_node] at hahead
          rw [hahead] at hbody
          cases herror.symm.trans hbody
  | inside hbody _ ih =>
      cases hreads with
      | @rule _ _ _ children g _ hbody' hchildren =>
          -- the same terminal is ahead, so the failure lies in the production that was read
          have hahead := headD_eq_of_append same
          rw [← Forest.ahead, Forest.ahead_node] at hahead
          rw [hahead, hbody] at hbody'
          cases hbody'
          obtain ⟨later, hlater⟩ := Forest.frontier_append_cons g next rest
          rw [Forest.frontier_node, List.append_assoc, hlater] at same
          exact ih hchildren same
  | @after r body parts children word found hbody hchildren _ ih =>
      cases hreads with
      | @rule _ body' _ children' g _ hbody' hchildren' hg =>
          rw [List.append_assoc, Forest.frontier_node, List.append_assoc] at same
          obtain ⟨later, hlater⟩ := Forest.frontier_append_cons g next rest
          obtain ⟨later', hlater'⟩ : ∃ l, word ++ found :: rest' = word.headD found :: l := by
            cases word <;> exact ⟨_, rfl⟩
          rw [hlater, hlater'] at same
          have hahead := headD_eq_of_append same
          rw [← Forest.ahead, ← Forest.ahead] at hahead
          rw [hahead, hbody] at hbody'
          cases hbody'
          obtain ⟨rfl, hmiddle⟩ := hchildren'.unique hchildren same
          rw [← hlater, ← hlater'] at hmiddle
          exact ih hg hmiddle
  | continuation _ ih =>
      cases hreads with
      | continuation hreads =>
          have hahead := headD_eq_of_append same
          rw [← Forest.ahead] at hahead
          rw [hahead] at hreads
          exact ih hreads same

/-! ### Completions -/

/-- **A form begins with a word** in front of a terminal: something it derives there starts so. -/
def Form.Begins (form : Form) (word : List Terminal) (next : Terminal) : Prop :=
  ∃ f, form.Derives .anywhere f next ∧ word <+: Forest.frontier f

namespace Form

variable {parts : List Part} {word : List Terminal} {next : Terminal}

/-- Any parts derive something. -/
theorem ofParts_begins_nil (parts : List Part) (next : Terminal) :
    (ofParts parts).Begins [] next := by
  suffices h : ∃ f, (ofParts parts).Derives .anywhere f next by
    obtain ⟨f, hf⟩ := h
    exact ⟨f, hf, List.nil_prefix⟩
  induction parts with
  | nil => exact ⟨[], .done next⟩
  | cons p parts ih =>
      obtain ⟨f, hf⟩ := ih
      cases p with
      | terminal t => exact ⟨.leaf t :: f, derives_ofParts_terminal.2 ⟨f, rfl, hf⟩⟩
      | rule r =>
          exact ⟨.node r r.someChildren :: f, derives_ofParts_rule.2
            ⟨_, f, rfl, r.production_derives_someChildren _, hf⟩⟩
      | continuation k =>
          exact ⟨f, derives_ofParts_continuation.2 (.inl ⟨trivial, hf⟩)⟩

theorem Begins.terminal (t : Terminal) (h : (ofParts parts).Begins word next) :
    (ofParts (.terminal t :: parts)).Begins (t :: word) next := by
  obtain ⟨f, hf, hword⟩ := h
  exact ⟨.leaf t :: f, derives_ofParts_terminal.2 ⟨f, rfl, hf⟩,
    List.cons_prefix_cons.2 ⟨rfl, hword⟩⟩

/-- What a continuation stands for somewhere may be begun with anywhere. -/
theorem Begins.continuation {k : Continuation} {seen : Terminal}
    (h : (ofParts (k.body seen ++ parts)).Begins word next) :
    (ofParts (.continuation k :: parts)).Begins word next := by
  obtain ⟨f, hf, hword⟩ := h
  refine ⟨f, derives_ofParts_continuation.2 ?_, hword⟩
  by_cases hseen : seen = k.opener
  · rw [hseen, k.body_opener, List.cons_append] at hf
    exact .inr (derives_ofParts_terminal.1 hf)
  · rw [Continuation.body_of_ne hseen, List.nil_append] at hf
    exact .inl ⟨trivial, hf⟩

/-- What the production predicted somewhere begins with, the rule may begin with anywhere. The
empty production gives way to another one. -/
theorem Begins.of_body {r : Rule} {seen : Terminal} {body : List Part}
    (predicted : r.body seen = .ok body) (h : (ofParts body).Begins word next) :
    r.production.Begins word next := by
  obtain ⟨f, hf, hword⟩ := h
  by_cases hbody : body = []
  · subst hbody
    obtain rfl := derives_ofParts_nil.1 hf
    obtain rfl := List.prefix_nil.1 hword
    exact ⟨r.someChildren, r.production_derives_someChildren next, List.nil_prefix⟩
  · exact ⟨f, Rule.derives_of_body predicted (fun h => absurd h hbody) hf, hword⟩

/-- A rule half read, with nothing of the parts after it. -/
theorem Begins.rule {r : Rule} (parts : List Part) (next : Terminal)
    (h : ∀ next, r.production.Begins word next) :
    (ofParts (.rule r :: parts)).Begins word next := by
  obtain ⟨g, hg, -⟩ := ofParts_begins_nil parts next
  obtain ⟨f, hf, hword⟩ := h (Forest.ahead g next)
  exact ⟨.node r f :: g, derives_ofParts_rule.2 ⟨f, g, rfl, hf, hg⟩,
    hword.trans (List.prefix_append _ _)⟩

/-- A rule read, and a word after it. If the word is empty, another terminal may follow the rule in
the completion than the one that did. -/
theorem Begins.rule_append {r : Rule} {children : Forest Terminal} {found : Terminal}
    (hchildren : r.production.Derives .anywhere children (word.headD found))
    (hbegins : ∀ next, r.production.Begins (Forest.frontier children) next)
    (h : (ofParts parts).Begins word next) :
    (ofParts (.rule r :: parts)).Begins (Forest.frontier children ++ word) next := by
  obtain ⟨g, hg, later, hlater⟩ := h
  cases word with
  | nil =>
      obtain ⟨f, hf, hword⟩ := hbegins (Forest.ahead g next)
      refine ⟨.node r f :: g, derives_ofParts_rule.2 ⟨f, g, rfl, hf, hg⟩, ?_⟩
      rw [List.append_nil]
      exact hword.trans (List.prefix_append _ _)
  | cons t word =>
      have hahead : Forest.ahead g next = t := by
        rw [Forest.ahead, ← hlater]
        rfl
      refine ⟨.node r children :: g, derives_ofParts_rule.2 ⟨children, g, rfl, ?_, hg⟩, ?_⟩
      · rw [hahead]
        exact hchildren
      · rw [Forest.frontier_node, ← hlater]
        exact ⟨later, List.append_assoc _ _ _⟩

end Form

/-- A rule that is read derives its children. -/
theorem Reads.production_derives {r : Rule} {body : List Part} {children : Forest Terminal}
    {next : Terminal} (hbody : r.body (Forest.ahead children next) = .ok body)
    (hchildren : Reads body children next) :
    r.production.Derives .anywhere children next := by
  have hrule : Reads [.rule r] [.node r children] next := .rule hbody hchildren (.nil next)
  have hderives := Form.derives_inOrder_singleton.1 (hrule.derives fun _ _ _ => trivial)
  exact (Form.derives_rule_node.1 hderives).2

/-- What has been read can be completed in front of any other terminal. -/
theorem Reads.begins {parts : List Part} {f : Forest Terminal} {seen : Terminal}
    (h : Reads parts f seen) (next : Terminal) :
    (Form.ofParts parts).Begins (Forest.frontier f) next := by
  induction h generalizing next with
  | nil => exact Form.ofParts_begins_nil [] next
  | terminal _ ih => exact (ih next).terminal _
  | rule hbody hchildren _ ihChildren ihRest =>
      exact (ihRest next).rule_append (hchildren.production_derives hbody)
        fun next => (ihChildren next).of_body hbody
  | continuation _ ih => exact (ih next).continuation

/-- **Failures are not too late**: the word passed can be completed, in front of any terminal. -/
theorem Fails.begins {parts : List Part} {word : List Terminal} {found : Terminal}
    (h : Fails parts word found) (next : Terminal) : (Form.ofParts parts).Begins word next := by
  induction h generalizing next with
  | mismatch | choice => exact Form.ofParts_begins_nil _ next
  | terminal _ ih => exact (ih next).terminal _
  | inside hbody _ ih => exact .rule _ next fun next => (ih next).of_body hbody
  | after hbody hchildren _ ih =>
      exact (ih next).rule_append (hchildren.production_derives hbody)
        fun next => (hchildren.begins next).of_body hbody
  | continuation _ ih => exact (ih next).continuation

/-! ### Whole inputs -/

/-- Failing early is failing with more to read. -/
theorem Fails.append {parts : List Part} {word : List Terminal} {found : Terminal}
    (h : Fails parts word found) (more : List Part) : Fails (parts ++ more) word found := by
  induction h with
  | mismatch hne => exact .mismatch hne
  | terminal _ ih => exact .terminal ih
  | choice herror => exact .choice herror
  | inside hbody hinside _ => exact .inside hbody hinside
  | after hbody hchildren _ ih => exact .after hbody hchildren ih
  | continuation _ ih =>
      rw [List.append_assoc] at ih
      exact .continuation ih

/-- A word without the sentinel ends where the first sentinel stands. -/
theorem eq_of_append_eof {word first rest : List Terminal} (hword : .eof ∉ word)
    (h : first ++ .eof :: rest = word ++ [.eof]) : first = word ∧ rest = [] := by
  induction first generalizing word with
  | nil =>
      cases word with
      | nil => exact ⟨rfl, (List.cons.inj h).2⟩
      | cons t word =>
          obtain rfl := (List.cons.inj h).1
          exact absurd List.mem_cons_self hword
  | cons t first ih =>
      cases word with
      | nil =>
          have := (List.cons.inj h).2
          exact absurd this (by simp)
      | cons t' word =>
          obtain ⟨rfl, htail⟩ := List.cons.inj h
          obtain ⟨rfl, rfl⟩ := ih (fun hmem => hword (List.mem_cons_of_mem _ hmem)) htail
          exact ⟨rfl, rfl⟩

/-- **A word is a sentence or it is rejected** at one of its terminals or at the sentinel. -/
theorem sentence_or_fails (r : Rule) {word : List Terminal} (hword : .eof ∉ word) :
    r.Sentence word ∨ ∃ passed found rest, Fails [.rule r, .terminal .eof] passed found ∧
      passed ++ found :: rest = word ++ [.eof] := by
  have hend : .eof ∈ word ++ [.eof] := List.mem_append_right _ List.mem_cons_self
  rcases reads_or_fails [.rule r] _ hend (by simp) with
    ⟨f, next, rest, hf, heq, -⟩ | ⟨passed, found, rest, hpassed, heq⟩
  -- a rule that is read may still be followed by something other than the sentinel
  · by_cases hnext : next = .eof
    · subst hnext
      obtain ⟨hfrontier, -⟩ := eq_of_append_eof hword heq
      exact .inl (Rule.sentence_iff.2 ⟨f, hf, hfrontier⟩)
    · cases hf with
      | @rule _ body _ children _ _ hbody hchildren hrest =>
          cases hrest
          refine .inr ⟨Forest.frontier children ++ [], next, rest,
            .after hbody hchildren (.mismatch hnext), ?_⟩
          rw [← heq, Forest.frontier_node, Forest.frontier_nil]
  · exact .inr ⟨passed, found, rest, hpassed.append [.terminal .eof], heq⟩

/-- A rule read at the end of the input is read together with the sentinel. -/
theorem Reads.append_eof {r : Rule} {f : Forest Terminal} (h : Reads [.rule r] f .eof) :
    Reads [.rule r, .terminal .eof] (f ++ [.leaf .eof]) .eof := by
  cases h with
  | rule hbody hchildren hrest =>
      cases hrest
      exact .rule hbody hchildren (.terminal (.nil .eof))

/-- What has been passed when a terminal is rejected is the start of a sentence. -/
theorem Fails.exists_sentence {r : Rule} {word : List Terminal} {found : Terminal}
    (h : Fails [.rule r, .terminal .eof] word found) :
    ∃ sentence, r.Sentence sentence ∧ word <+: sentence ++ [.eof] := by
  obtain ⟨f, hf, hstart⟩ := h.begins .eof
  obtain ⟨children, g, rfl, hchildren, hg⟩ := Form.derives_ofParts_rule.1 hf
  obtain ⟨_, rfl, hrest⟩ := Form.derives_ofParts_terminal.1 hg
  obtain rfl := Form.derives_ofParts_nil.1 hrest
  exact ⟨Forest.frontier children, ⟨children, hchildren, rfl⟩, hstart⟩

/-- No sentence goes on with the terminal rejected. -/
theorem Fails.not_prefix_sentence {r : Rule} {word sentence : List Terminal} {found : Terminal}
    (h : Fails [.rule r, .terminal .eof] word found) (hsentence : r.Sentence sentence) :
    ¬ word ++ [found] <+: sentence ++ [.eof] := by
  rintro ⟨rest, heq⟩
  obtain ⟨f, hf, rfl⟩ := Rule.sentence_iff.1 hsentence
  have hsame : Forest.frontier (f ++ [.leaf .eof]) ++ .eof :: [] =
      word ++ found :: (rest ++ [.eof]) := by
    rw [Forest.frontier_append, Forest.frontier_leaf, Forest.frontier_nil, ← heq]
    simp
  exact h.not_reads hf.append_eof hsame

end SccSharp
