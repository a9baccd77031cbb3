import SccSharp.Grammar

/-!
# Derivations

The grammar as a set of productions, written as the grammar comment writes them, and what it
derives. Nothing here predicts anything: a derivation may be any tree whose nodes follow the
productions.

What a rule derives depends on the terminal that follows it, for two reasons.

* An expression remainder is empty only in front of a right parenthesis or a semicolon. The
  production says so itself (`Form.emptyBefore`).
* An optional part or a repetition may be asked to end only where it could not have gone on. That
  is the parameter `Ending` of a derivation: `Ending.anywhere` asks for nothing, and is what
  sentences are made with; `Ending.longest` is what a rule recognised on its own obeys.

## Main Definitions

* `Form`, `Rule.production` — right sides of the grammar, and the one of each rule
* `Tree`, `Forest` — derivation trees and rows of them, with their `frontier`
* `Form.Derives` — a form derives a forest in front of a terminal
* `Rule.Derives`, `Rule.Sentence` — the words a rule derives, in front of a terminal and at the end

## Main Statements

* `Form.Derives.mono` — a stricter ending derives no more
* `Rule.production_derives_someChildren` — every rule derives something in front of every terminal
-/

namespace SccSharp

/-! ### Productions -/

/-- **A right side of the grammar.** -/
inductive Form where
  | terminal (t : Terminal)
  | rule (r : Rule)
  /-- One part after the other. -/
  | inOrder (parts : List Form)
  /-- One of the alternatives. -/
  | oneOf (alternatives : List Form)
  /-- The opener and the part, or nothing. -/
  | optional (opener : Terminal) (part : Form)
  /-- The opener and the part, any number of times. -/
  | many (opener : Terminal) (part : Form)
  /-- Nothing, but only in front of one of these terminals. -/
  | emptyBefore (followers : List Terminal)

/-- One of these terminals. -/
def Form.anyOf (terminals : List Terminal) : Form :=
  .oneOf (terminals.map .terminal)

/-- **The production of a rule.** -/
def Rule.production : Rule → Form
  | .statementPart =>
      .inOrder [.terminal .beginWord, .rule .statementList, .terminal .endWord]
  | .statementList => .inOrder [.rule .statement, .many .semicolon (.rule .statement)]
  | .statement =>
      .oneOf [.rule .assignmentStatement, .rule .ifStatement, .rule .whileStatement,
        .rule .procedureStatement, .rule .untilStatement]
  | .assignmentStatement =>
      .inOrder [.terminal .identifier, .terminal .becomes, .rule .assignmentRemainder]
  | .assignmentRemainder => .oneOf [.terminal .stringConstant, .rule .expression]
  | .ifStatement =>
      .inOrder [.terminal .ifWord, .rule .condition, .terminal .thenWord, .rule .statementList,
        .rule .ifRemainder, .terminal .endWord, .terminal .ifWord]
  | .ifRemainder => .optional .elseWord (.rule .statementList)
  | .whileStatement =>
      .inOrder [.terminal .whileWord, .rule .condition, .terminal .loopWord,
        .rule .statementList, .terminal .endWord, .terminal .loopWord]
  | .procedureStatement =>
      .inOrder [.terminal .callWord, .terminal .identifier, .terminal .leftParenthesis,
        .rule .argumentList, .terminal .rightParenthesis]
  | .untilStatement =>
      .inOrder [.terminal .doWord, .rule .statementList, .terminal .untilWord, .rule .condition]
  | .expression => .inOrder [.rule .factor, .rule .expressionRemainder]
  | .expressionRemainder =>
      .oneOf [
        .inOrder [.anyOf [.plus, .minus, .times, .divide], .rule .factor],
        .emptyBefore [.rightParenthesis, .semicolon]]
  | .factor =>
      .oneOf [.terminal .identifier, .terminal .numberConstant,
        .inOrder [.terminal .leftParenthesis, .rule .expression, .terminal .rightParenthesis]]
  | .argumentList => .inOrder [.terminal .identifier, .optional .comma (.rule .argumentList)]
  | .condition =>
      .inOrder [.terminal .identifier, .rule .conditionalOperator, .rule .conditionRemainder]
  | .conditionRemainder => .anyOf [.identifier, .numberConstant, .stringConstant]
  | .conditionalOperator =>
      .anyOf [.greaterThan, .greaterEqual, .equals, .notEqual, .lessThan, .lessEqual]

/-! ### Trees -/

/-- **A derivation tree**, with `α` at its leaves: terminals, or the tokens read for them. -/
inductive Tree (α : Type) where
  | leaf (a : α)
  | node (r : Rule) (children : List (Tree α))

/-- Trees side by side. -/
abbrev Forest (α : Type) := List (Tree α)

section Trees

variable {α β : Type}

mutual

/-- The leaves of a tree, from left to right. -/
def Tree.frontier : Tree α → List α
  | .leaf a => [a]
  | .node _ children => Forest.frontier children

/-- The leaves of a forest, from left to right. -/
def Forest.frontier : Forest α → List α
  | [] => []
  | tree :: rest => tree.frontier ++ Forest.frontier rest

end

mutual

/-- A tree with its leaves renamed. -/
def Tree.map (rename : α → β) : Tree α → Tree β
  | .leaf a => .leaf (rename a)
  | .node r children => .node r (Forest.map rename children)

/-- A forest with its leaves renamed. -/
def Forest.map (rename : α → β) : Forest α → Forest β
  | [] => []
  | tree :: rest => tree.map rename :: Forest.map rename rest

end

@[simp] theorem Forest.frontier_nil : Forest.frontier ([] : Forest α) = [] := rfl

@[simp] theorem Forest.frontier_leaf (a : α) (f : Forest α) :
    Forest.frontier (.leaf a :: f) = a :: Forest.frontier f := rfl

@[simp] theorem Forest.frontier_node (r : Rule) (children f : Forest α) :
    Forest.frontier (.node r children :: f) =
      Forest.frontier children ++ Forest.frontier f := rfl

@[simp] theorem Forest.frontier_append (f g : Forest α) :
    Forest.frontier (f ++ g) = Forest.frontier f ++ Forest.frontier g := by
  induction f with
  | nil => rfl
  | cons tree rest ih => simp [Forest.frontier, ih]

theorem Forest.map_append (rename : α → β) (f g : Forest α) :
    Forest.map rename (f ++ g) = Forest.map rename f ++ Forest.map rename g := by
  induction f with
  | nil => rfl
  | cons tree rest ih => simp [Forest.map, ih]

mutual

/-- Renaming the leaves of a tree renames its frontier. -/
theorem Tree.frontier_map (rename : α → β) :
    (tree : Tree α) → (tree.map rename).frontier = tree.frontier.map rename
  | .leaf _ => rfl
  | .node _ children => Forest.frontier_map rename children

/-- Renaming the leaves of a forest renames its frontier. -/
theorem Forest.frontier_map (rename : α → β) :
    (f : Forest α) → Forest.frontier (Forest.map rename f) = (Forest.frontier f).map rename
  | [] => rfl
  | tree :: rest => by
      rw [Forest.map, Forest.frontier, Forest.frontier, tree.frontier_map rename,
        Forest.frontier_map rename rest, List.map_append]

end

mutual

/-- Leaves may be put back under a tree whose frontier is their names. -/
theorem Tree.exists_map_eq {rename : α → β} : (tree : Tree β) → {leaves : List α} →
    tree.frontier = leaves.map rename →
      ∃ named : Tree α, named.map rename = tree ∧ named.frontier = leaves
  | .leaf b, leaves, h => by
      obtain ⟨a, rest, rfl, ha, hrest⟩ := List.map_eq_cons_iff.1 h.symm
      obtain rfl := List.map_eq_nil_iff.1 hrest
      exact ⟨.leaf a, by rw [Tree.map, ha], rfl⟩
  | .node r children, leaves, h => by
      obtain ⟨named, hmap, hfrontier⟩ := Forest.exists_map_eq children h
      exact ⟨.node r named, by rw [Tree.map, hmap], hfrontier⟩

/-- Leaves may be put back under a forest whose frontier is their names. -/
theorem Forest.exists_map_eq {rename : α → β} : (f : Forest β) → {leaves : List α} →
    Forest.frontier f = leaves.map rename →
      ∃ named : Forest α, Forest.map rename named = f ∧ Forest.frontier named = leaves
  | [], leaves, h => by
      obtain rfl := List.map_eq_nil_iff.1 h.symm
      exact ⟨[], rfl, rfl⟩
  | tree :: rest, leaves, h => by
      obtain ⟨left, right, rfl, hleft, hright⟩ := List.map_eq_append_iff.1 h.symm
      obtain ⟨first, hfirst, hfirst'⟩ := Tree.exists_map_eq tree hleft.symm
      obtain ⟨named, hnamed, hnamed'⟩ := Forest.exists_map_eq rest hright.symm
      exact ⟨first :: named, by rw [Forest.map, hfirst, hnamed],
        by rw [Forest.frontier, hfirst', hnamed']⟩

end

end Trees

/-- The first terminal of a forest that stands in front of `next`. -/
def Forest.ahead (f : Forest Terminal) (next : Terminal) : Terminal :=
  (Forest.frontier f).headD next

@[simp] theorem Forest.ahead_nil (next : Terminal) : Forest.ahead [] next = next := rfl

@[simp] theorem Forest.ahead_leaf (t : Terminal) (f : Forest Terminal) (next : Terminal) :
    Forest.ahead (.leaf t :: f) next = t := rfl

@[simp] theorem Forest.ahead_append (f g : Forest Terminal) (next : Terminal) :
    Forest.ahead (f ++ g) next = Forest.ahead f (Forest.ahead g next) := by
  unfold Forest.ahead
  rw [Forest.frontier_append]
  cases Forest.frontier f <;> rfl

@[simp] theorem Forest.ahead_node (r : Rule) (children f : Forest Terminal) (next : Terminal) :
    Forest.ahead (.node r children :: f) next =
      Forest.ahead children (Forest.ahead f next) := by
  rw [← Forest.ahead_append]
  simp only [Forest.ahead, Forest.frontier_node, Forest.frontier_append]

/-- A word in front of a terminal starts with its first terminal or with that one. -/
theorem head?_append_cons (word : List Terminal) (next : Terminal) (rest : List Terminal) :
    (word ++ next :: rest).head? = some (word.headD next) := by
  cases word <;> rfl

/-- A forest in front of a terminal gives its first terminal and more. -/
theorem Forest.frontier_append_cons (f : Forest Terminal) (next : Terminal)
    (rest : List Terminal) :
    ∃ later, Forest.frontier f ++ next :: rest = Forest.ahead f next :: later := by
  unfold Forest.ahead
  cases Forest.frontier f with
  | nil => exact ⟨rest, rfl⟩
  | cons t later => exact ⟨later ++ next :: rest, rfl⟩

/-- The first terminal of an input is that of the word it starts with, or the next one. -/
theorem headD_of_append_eq_cons {word rest later : List Terminal} {next first : Terminal}
    (h : word ++ next :: rest = first :: later) : word.headD next = first := by
  have heads := congrArg List.head? h
  rw [head?_append_cons] at heads
  exact Option.some.inj heads

/-- Two words that are equal with what follows them start alike. -/
theorem headD_eq_of_append {word word' rest rest' : List Terminal} {next next' : Terminal}
    (h : word ++ next :: rest = word' ++ next' :: rest') : word.headD next = word'.headD next' := by
  have heads := congrArg List.head? h
  rw [head?_append_cons, head?_append_cons] at heads
  exact Option.some.inj heads

/-! ### What forms derive -/

/-- Where an optional part or a repetition may end: its opener, and the terminal in front of which
it ends. -/
abbrev Ending := Terminal → Terminal → Prop

/-- Anywhere. -/
def Ending.anywhere : Ending := fun _ _ => True

/-- Only where it could not have gone on. -/
def Ending.longest : Ending := fun opener next => next ≠ opener

/-- **What a form derives** in front of a terminal: a row of trees that follows the form. -/
inductive Form.Derives (ending : Ending) : Form → Forest Terminal → Terminal → Prop where
  | terminal (t next : Terminal) : Derives ending (.terminal t) [.leaf t] next
  | rule {r : Rule} {children : Forest Terminal} {next : Terminal} :
      Derives ending r.production children next →
        Derives ending (.rule r) [.node r children] next
  | done (next : Terminal) : Derives ending (.inOrder []) [] next
  | inOrder {part : Form} {parts : List Form} {f g : Forest Terminal} {next : Terminal} :
      Derives ending part f (Forest.ahead g next) → Derives ending (.inOrder parts) g next →
        Derives ending (.inOrder (part :: parts)) (f ++ g) next
  | oneOf {part : Form} {alternatives : List Form} {f : Forest Terminal} {next : Terminal} :
      part ∈ alternatives → Derives ending part f next →
        Derives ending (.oneOf alternatives) f next
  | omitted {opener : Terminal} {part : Form} {next : Terminal} :
      ending opener next → Derives ending (.optional opener part) [] next
  | supplied {opener : Terminal} {part : Form} {f : Forest Terminal} {next : Terminal} :
      Derives ending part f next →
        Derives ending (.optional opener part) (.leaf opener :: f) next
  | ended {opener : Terminal} {part : Form} {next : Terminal} :
      ending opener next → Derives ending (.many opener part) [] next
  | continued {opener : Terminal} {part : Form} {f g : Forest Terminal} {next : Terminal} :
      Derives ending part f (Forest.ahead g next) →
        Derives ending (.many opener part) g next →
          Derives ending (.many opener part) (.leaf opener :: (f ++ g)) next
  | emptyBefore {followers : List Terminal} {next : Terminal} :
      next ∈ followers → Derives ending (.emptyBefore followers) [] next

/-- **The words a rule derives** in front of a terminal. -/
def Rule.Derives (ending : Ending) (r : Rule) (word : List Terminal) (next : Terminal) : Prop :=
  ∃ children, r.production.Derives ending children next ∧ Forest.frontier children = word

/-- **The sentences of a rule**: the words it derives at the end of the input. -/
def Rule.Sentence (r : Rule) (word : List Terminal) : Prop :=
  r.Derives .anywhere word .eof

/-- **The derivation trees of a rule** in front of a terminal. -/
def Tree.Derivation (r : Rule) (tree : Tree Terminal) (next : Terminal) : Prop :=
  (Form.rule r).Derives .anywhere [tree] next

namespace Form

variable {ending : Ending} {f : Forest Terminal} {next : Terminal}

/-! ### Taking derivations apart -/

@[simp] theorem derives_terminal {t : Terminal} :
    (Form.terminal t).Derives ending f next ↔ f = [.leaf t] := by
  constructor
  · rintro ⟨⟩
    rfl
  · rintro rfl
    exact .terminal t next

theorem derives_rule {r : Rule} : (Form.rule r).Derives ending f next ↔
    ∃ children, f = [.node r children] ∧ r.production.Derives ending children next := by
  constructor
  · rintro ⟨⟩
    exact ⟨_, rfl, ‹_›⟩
  · rintro ⟨children, rfl, h⟩
    exact .rule h

@[simp] theorem derives_rule_node {q r : Rule} {children : Forest Terminal} :
    (Form.rule r).Derives ending [.node q children] next ↔
      q = r ∧ r.production.Derives ending children next := by
  rw [derives_rule]
  constructor
  · rintro ⟨_, heq, h⟩
    cases heq
    exact ⟨rfl, h⟩
  · rintro ⟨rfl, h⟩
    exact ⟨children, rfl, h⟩

@[simp] theorem derives_inOrder_nil : (Form.inOrder []).Derives ending f next ↔ f = [] := by
  constructor
  · rintro ⟨⟩
    rfl
  · rintro rfl
    exact .done next

theorem derives_inOrder_cons {part : Form} {parts : List Form} :
    (Form.inOrder (part :: parts)).Derives ending f next ↔
      ∃ g h, f = g ++ h ∧ part.Derives ending g (Forest.ahead h next) ∧
        (Form.inOrder parts).Derives ending h next := by
  constructor
  · rintro ⟨⟩
    exact ⟨_, _, rfl, ‹_›, ‹_›⟩
  · rintro ⟨g, h, rfl, hpart, hparts⟩
    exact .inOrder hpart hparts

theorem derives_inOrder_terminal {t : Terminal} {parts : List Form} :
    (Form.inOrder (.terminal t :: parts)).Derives ending f next ↔
      ∃ g, f = .leaf t :: g ∧ (Form.inOrder parts).Derives ending g next := by
  rw [derives_inOrder_cons]
  constructor
  · rintro ⟨_, g, rfl, hterminal, hparts⟩
    obtain rfl := derives_terminal.1 hterminal
    exact ⟨g, rfl, hparts⟩
  · rintro ⟨g, rfl, hparts⟩
    exact ⟨[.leaf t], g, rfl, .terminal t _, hparts⟩

theorem derives_inOrder_rule {r : Rule} {parts : List Form} :
    (Form.inOrder (.rule r :: parts)).Derives ending f next ↔
      ∃ children g, f = .node r children :: g ∧
        r.production.Derives ending children (Forest.ahead g next) ∧
          (Form.inOrder parts).Derives ending g next := by
  rw [derives_inOrder_cons]
  constructor
  · rintro ⟨_, g, rfl, hrule, hparts⟩
    obtain ⟨children, rfl, hchildren⟩ := derives_rule.1 hrule
    exact ⟨children, g, rfl, hchildren, hparts⟩
  · rintro ⟨children, g, rfl, hchildren, hparts⟩
    exact ⟨[.node r children], g, rfl, .rule hchildren, hparts⟩

@[simp] theorem derives_inOrder_leaf {t : Terminal} {parts : List Form} :
    (Form.inOrder (.terminal t :: parts)).Derives ending (.leaf t :: f) next ↔
      (Form.inOrder parts).Derives ending f next := by
  simp [derives_inOrder_terminal]

@[simp] theorem derives_inOrder_node {r : Rule} {children : Forest Terminal}
    {parts : List Form} :
    (Form.inOrder (.rule r :: parts)).Derives ending (.node r children :: f) next ↔
      r.production.Derives ending children (Forest.ahead f next) ∧
        (Form.inOrder parts).Derives ending f next := by
  rw [derives_inOrder_rule]
  constructor
  · rintro ⟨_, _, heq, h⟩
    cases heq
    exact h
  · intro h
    exact ⟨children, f, rfl, h⟩

@[simp] theorem derives_inOrder_singleton {part : Form} :
    (Form.inOrder [part]).Derives ending f next ↔ part.Derives ending f next := by
  simp [derives_inOrder_cons]

@[simp] theorem derives_oneOf {alternatives : List Form} :
    (Form.oneOf alternatives).Derives ending f next ↔
      ∃ part ∈ alternatives, part.Derives ending f next := by
  constructor
  · rintro ⟨⟩
    exact ⟨_, ‹_›, ‹_›⟩
  · rintro ⟨part, hmem, h⟩
    exact .oneOf hmem h

@[simp] theorem derives_anyOf {terminals : List Terminal} :
    (Form.anyOf terminals).Derives ending f next ↔ ∃ t ∈ terminals, f = [.leaf t] := by
  rw [anyOf, derives_oneOf]
  constructor
  · rintro ⟨_, hmem, h⟩
    obtain ⟨t, ht, rfl⟩ := List.mem_map.1 hmem
    exact ⟨t, ht, derives_terminal.1 h⟩
  · rintro ⟨t, ht, rfl⟩
    exact ⟨.terminal t, List.mem_map_of_mem ht, .terminal t next⟩

theorem derives_inOrder_anyOf {terminals : List Terminal} {parts : List Form} :
    (Form.inOrder (.anyOf terminals :: parts)).Derives ending f next ↔
      ∃ t ∈ terminals, ∃ g, f = .leaf t :: g ∧
        (Form.inOrder parts).Derives ending g next := by
  rw [derives_inOrder_cons]
  constructor
  · rintro ⟨_, g, rfl, hany, hparts⟩
    obtain ⟨t, hmem, rfl⟩ := derives_anyOf.1 hany
    exact ⟨t, hmem, g, rfl, hparts⟩
  · rintro ⟨t, hmem, g, rfl, hparts⟩
    exact ⟨[.leaf t], g, rfl, derives_anyOf.2 ⟨t, hmem, rfl⟩, hparts⟩

@[simp] theorem derives_inOrder_anyOf_leaf {terminals : List Terminal} {parts : List Form}
    {t : Terminal} :
    (Form.inOrder (.anyOf terminals :: parts)).Derives ending (.leaf t :: f) next ↔
      t ∈ terminals ∧ (Form.inOrder parts).Derives ending f next := by
  rw [derives_inOrder_anyOf]
  constructor
  · rintro ⟨_, hmem, _, heq, h⟩
    cases heq
    exact ⟨hmem, h⟩
  · rintro ⟨hmem, h⟩
    exact ⟨t, hmem, f, rfl, h⟩

@[simp] theorem derives_optional {opener : Terminal} {part : Form} :
    (Form.optional opener part).Derives ending f next ↔
      f = [] ∧ ending opener next ∨ ∃ g, f = .leaf opener :: g ∧ part.Derives ending g next := by
  constructor
  · rintro ⟨⟩
    · exact .inl ⟨rfl, ‹_›⟩
    · exact .inr ⟨_, rfl, ‹_›⟩
  · rintro (⟨rfl, h⟩ | ⟨g, rfl, h⟩)
    · exact .omitted h
    · exact .supplied h

theorem derives_many {opener : Terminal} {part : Form} :
    (Form.many opener part).Derives ending f next ↔
      f = [] ∧ ending opener next ∨
        ∃ g h, f = .leaf opener :: (g ++ h) ∧ part.Derives ending g (Forest.ahead h next) ∧
          (Form.many opener part).Derives ending h next := by
  constructor
  · rintro ⟨⟩
    · exact .inl ⟨rfl, ‹_›⟩
    · exact .inr ⟨_, _, rfl, ‹_›, ‹_›⟩
  · rintro (⟨rfl, h⟩ | ⟨g, h, rfl, hpart, hmore⟩)
    · exact .ended h
    · exact .continued hpart hmore

@[simp] theorem derives_many_nil {opener : Terminal} {part : Form} :
    (Form.many opener part).Derives ending [] next ↔ ending opener next := by
  rw [derives_many]
  simp

@[simp] theorem derives_emptyBefore {followers : List Terminal} :
    (Form.emptyBefore followers).Derives ending f next ↔ f = [] ∧ next ∈ followers := by
  constructor
  · rintro ⟨⟩
    exact ⟨rfl, ‹_›⟩
  · rintro ⟨rfl, h⟩
    exact .emptyBefore h

/-! ### Endings -/

/-- **A stricter ending derives no more.** -/
theorem Derives.mono {stricter : Ending} {form : Form}
    (weaker : ∀ opener next, stricter opener next → ending opener next)
    (h : form.Derives stricter f next) : form.Derives ending f next := by
  induction h with
  | terminal t next => exact .terminal t next
  | rule _ ih => exact .rule ih
  | done next => exact .done next
  | inOrder _ _ ihPart ihParts => exact .inOrder ihPart ihParts
  | oneOf hmem _ ih => exact .oneOf hmem ih
  | omitted h => exact .omitted (weaker _ _ h)
  | supplied _ ih => exact .supplied ih
  | ended h => exact .ended (weaker _ _ h)
  | continued _ _ ihPart ihMore => exact .continued ihPart ihMore
  | emptyBefore h => exact .emptyBefore h

/-- What derives at all derives with any endings. -/
theorem Derives.anywhere {form : Form} (h : form.Derives ending f next) :
    form.Derives .anywhere f next :=
  h.mono fun _ _ _ => trivial

end Form

/-- The words a rule derives are the frontiers of what the rule as a form derives. -/
theorem Rule.derives_iff {ending : Ending} {r : Rule} {word : List Terminal} {next : Terminal} :
    r.Derives ending word next ↔
      ∃ f, (Form.rule r).Derives ending f next ∧ Forest.frontier f = word := by
  constructor
  · rintro ⟨children, h, rfl⟩
    refine ⟨[.node r children], .rule h, ?_⟩
    rw [Forest.frontier_node, Forest.frontier_nil, List.append_nil]
  · rintro ⟨f, h, rfl⟩
    obtain ⟨children, rfl, hchildren⟩ := Form.derives_rule.1 h
    refine ⟨children, hchildren, ?_⟩
    rw [Forest.frontier_node, Forest.frontier_nil, List.append_nil]

/-! ### Every rule derives something -/

namespace Tree

/-- A factor of one leaf. -/
def someFactor : Tree Terminal := .node .factor [.leaf .identifier]

/-- A condition between two identifiers. -/
def someCondition : Tree Terminal :=
  .node .condition [.leaf .identifier, .node .conditionalOperator [.leaf .equals],
    .node .conditionRemainder [.leaf .identifier]]

/-- A statement list of one assignment. -/
def someStatements : Tree Terminal :=
  .node .statementList [.node .statement [.node .assignmentStatement
    [.leaf .identifier, .leaf .becomes, .node .assignmentRemainder [.leaf .stringConstant]]]]

end Tree

/-- Children of each rule that suit whatever follows. The expression remainder among them is not
the empty one. -/
def Rule.someChildren : Rule → Forest Terminal
  | .statementPart => [.leaf .beginWord, Tree.someStatements, .leaf .endWord]
  | .statementList => [.node .statement [.node .assignmentStatement
      [.leaf .identifier, .leaf .becomes, .node .assignmentRemainder [.leaf .stringConstant]]]]
  | .statement => [.node .assignmentStatement
      [.leaf .identifier, .leaf .becomes, .node .assignmentRemainder [.leaf .stringConstant]]]
  | .assignmentStatement =>
      [.leaf .identifier, .leaf .becomes, .node .assignmentRemainder [.leaf .stringConstant]]
  | .assignmentRemainder => [.leaf .stringConstant]
  | .ifStatement =>
      [.leaf .ifWord, Tree.someCondition, .leaf .thenWord, Tree.someStatements,
        .node .ifRemainder [], .leaf .endWord, .leaf .ifWord]
  | .ifRemainder => []
  | .whileStatement =>
      [.leaf .whileWord, Tree.someCondition, .leaf .loopWord, Tree.someStatements, .leaf .endWord,
        .leaf .loopWord]
  | .procedureStatement =>
      [.leaf .callWord, .leaf .identifier, .leaf .leftParenthesis,
        .node .argumentList [.leaf .identifier], .leaf .rightParenthesis]
  | .untilStatement => [.leaf .doWord, Tree.someStatements, .leaf .untilWord, Tree.someCondition]
  | .expression => [Tree.someFactor, .node .expressionRemainder [.leaf .plus, Tree.someFactor]]
  | .expressionRemainder => [.leaf .plus, Tree.someFactor]
  | .factor => [.leaf .identifier]
  | .argumentList => [.leaf .identifier]
  | .condition =>
      [.leaf .identifier, .node .conditionalOperator [.leaf .equals],
        .node .conditionRemainder [.leaf .identifier]]
  | .conditionRemainder => [.leaf .identifier]
  | .conditionalOperator => [.leaf .equals]

/-- **Every rule derives something**, whatever follows it. -/
theorem Rule.production_derives_someChildren (r : Rule) (next : Terminal) :
    r.production.Derives .anywhere r.someChildren next := by
  cases r <;>
    simp [Rule.production, Rule.someChildren, Tree.someFactor, Tree.someCondition,
      Tree.someStatements, Ending.anywhere]

end SccSharp
