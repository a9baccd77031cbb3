import SccSharp.Proofs.Derivation

/-!
# Predictive reading

`Reads` reads a row of parts by prediction: where a rule stands, the production is the one that
`Rule.body` picks for the next terminal, and where a continuation stands, the next terminal decides
whether it goes on. There is nothing to choose, so a reading is determined by the word
(`Reads.unique`).

Reading by prediction finds exactly the derivations that end optional parts and repetitions as late
as they can (`reads_rule_iff_longest`). At the end of the input nothing is lost by that
(`reads_rule_iff_derivation`): no terminal that opens an optional part or another round of a
repetition can follow the rule that contains it, except where that rule ends with it. The follow
sets enter only through `Part.openers`, which names the rules that end with such a part.

## Main Definitions

* `Part.form` — a part of a predicted production as a form
* `Reads` — predictive reading
* `Part.openers`, `Part.Clear` — the terminals that would have continued a part, and a part that no
  such terminal follows

## Main Statements

* `Reads.unique` — two readings of one input are the same
* `Reads.derives` — what is read is derived
* `Reads.of_derives` — what is derived is read, if no part could have gone on
* `Rule.sentence_iff` — the sentences of a rule are the words read up to the sentinel
-/

namespace SccSharp

/-! ### Parts as forms -/

/-- A part of a predicted production as a form. -/
def Part.form : Part → Form
  | .terminal t => .terminal t
  | .rule r => .rule r
  | .continuation .statements => .many .semicolon (.rule .statement)
  | .continuation .arguments => .optional .comma (.rule .argumentList)

/-- The parts of a predicted production as a form. -/
def Form.ofParts (parts : List Part) : Form :=
  .inOrder (parts.map Part.form)

namespace Form

variable {ending : Ending} {f : Forest Terminal} {next : Terminal} {parts : List Part}

@[simp] theorem derives_ofParts_nil : (ofParts []).Derives ending f next ↔ f = [] :=
  derives_inOrder_nil

theorem derives_ofParts_terminal {t : Terminal} :
    (ofParts (.terminal t :: parts)).Derives ending f next ↔
      ∃ g, f = .leaf t :: g ∧ (ofParts parts).Derives ending g next :=
  derives_inOrder_terminal

theorem derives_ofParts_rule {r : Rule} :
    (ofParts (.rule r :: parts)).Derives ending f next ↔
      ∃ children g, f = .node r children :: g ∧
        r.production.Derives ending children (Forest.ahead g next) ∧
          (ofParts parts).Derives ending g next :=
  derives_inOrder_rule

end Form

/-! ### Continuations -/

namespace Continuation

/-- The terminal that asks for a continuation. -/
def opener : Continuation → Terminal
  | statements => .semicolon
  | arguments => .comma

/-- What a continuation reads after its opener. -/
def round : Continuation → List Part
  | statements => [.rule .statement, .continuation .statements]
  | arguments => [.rule .argumentList]

/-- A continuation goes on in front of its opener. -/
theorem body_opener (k : Continuation) : k.body k.opener = .terminal k.opener :: k.round := by
  cases k <;> rfl

/-- A continuation stops in front of any other terminal. -/
theorem body_of_ne {k : Continuation} {seen : Terminal} (h : seen ≠ k.opener) :
    k.body seen = [] := by
  cases k <;> cases seen <;> first | rfl | exact absurd rfl h

end Continuation

/-! ### Reading -/

/-- **Reading by prediction**: the parts, the trees read for them, and the terminal that follows. -/
inductive Reads : List Part → Forest Terminal → Terminal → Prop where
  | nil (next : Terminal) : Reads [] [] next
  | terminal {t : Terminal} {parts : List Part} {f : Forest Terminal} {next : Terminal} :
      Reads parts f next → Reads (.terminal t :: parts) (.leaf t :: f) next
  | rule {r : Rule} {body parts : List Part} {children f : Forest Terminal} {next : Terminal} :
      r.body (Forest.ahead children (Forest.ahead f next)) = .ok body →
        Reads body children (Forest.ahead f next) → Reads parts f next →
          Reads (.rule r :: parts) (.node r children :: f) next
  | continuation {k : Continuation} {parts : List Part} {f : Forest Terminal}
      {next : Terminal} :
      Reads (k.body (Forest.ahead f next) ++ parts) f next →
        Reads (.continuation k :: parts) f next

/-- **Readings are unique**: two readings of the same parts on the same input give the same trees
and leave the same rest. -/
theorem Reads.unique {parts : List Part} {f g : Forest Terminal} {next next' : Terminal}
    {rest rest' : List Terminal} (hf : Reads parts f next) (hg : Reads parts g next')
    (same : Forest.frontier f ++ next :: rest = Forest.frontier g ++ next' :: rest') :
    f = g ∧ next :: rest = next' :: rest' := by
  induction hf generalizing g next' rest rest' with
  | nil next =>
      cases hg
      exact ⟨rfl, same⟩
  | terminal _ ih =>
      cases hg with
      | terminal hg =>
          obtain ⟨rfl, hrest⟩ := ih hg (List.cons.inj same).2
          exact ⟨rfl, hrest⟩
  | @rule r body parts children f next hbody _ _ ihChildren ihRest =>
      cases hg with
      | @rule _ body' _ children' g _ hbody' hchildren' hrest' =>
          -- both readings look at the same terminal, so they predict the same production
          have hahead := headD_eq_of_append same
          rw [← Forest.ahead, ← Forest.ahead, Forest.ahead_node, Forest.ahead_node] at hahead
          rw [← hahead, hbody] at hbody'
          cases hbody'
          rw [Forest.frontier_node, Forest.frontier_node, List.append_assoc,
            List.append_assoc] at same
          obtain ⟨later, hlater⟩ := Forest.frontier_append_cons f next rest
          obtain ⟨later', hlater'⟩ := Forest.frontier_append_cons g next' rest'
          rw [hlater, hlater'] at same
          obtain ⟨rfl, hmid⟩ := ihChildren hchildren' same
          rw [← hlater, ← hlater'] at hmid
          obtain ⟨rfl, hend⟩ := ihRest hrest' hmid
          exact ⟨rfl, hend⟩
  | @continuation k parts f next _ ih =>
      cases hg with
      | continuation hg =>
          rw [Forest.ahead, ← headD_eq_of_append same] at hg
          exact ih hg same

/-! ### The classes of terminals as lists -/

namespace Terminal

theorem isArithmetic_iff (t : Terminal) :
    t.isArithmetic = true ↔ t ∈ [plus, minus, times, divide] := by
  cases t <;> decide

theorem endsExpression_iff (t : Terminal) :
    t.endsExpression = true ↔ t ∈ [rightParenthesis, semicolon] := by
  cases t <;> decide

theorem isFactor_iff (t : Terminal) : t.isFactor = true ↔ t = identifier ∨ t = numberConstant := by
  cases t <;> decide

theorem isOperand_iff (t : Terminal) :
    t.isOperand = true ↔ t ∈ [identifier, numberConstant, stringConstant] := by
  cases t <;> decide

theorem isConditional_iff (t : Terminal) :
    t.isConditional = true ↔
      t ∈ [greaterThan, greaterEqual, equals, notEqual, lessThan, lessEqual] := by
  cases t <;> decide

/-- The statements there are. -/
theorem mem_of_statementRule? {t : Terminal} {kind : Rule} (h : t.statementRule? = some kind) :
    kind ∈ [.assignmentStatement, .ifStatement, .whileStatement, .procedureStatement,
      .untilStatement] := by
  cases t <;> cases h <;> decide

end Terminal

/-! ### Readings are derivations -/

/-- A predicted production derives what the production of its rule derives. Only for the empty one
does it matter in front of what. -/
theorem Rule.derives_of_body {ending : Ending} {r : Rule} {seen next : Terminal}
    {body : List Part} {f : Forest Terminal} (predicted : r.body seen = .ok body)
    (vanishing : body = [] → r.production.Derives ending [] next)
    (h : (Form.ofParts body).Derives ending f next) : r.production.Derives ending f next := by
  cases r with
  | statement =>
      cases hkind : seen.statementRule? with
      | none => simp [Rule.body, hkind] at predicted
      | some kind =>
          simp only [Rule.body, hkind] at predicted
          cases predicted
          have hkind' : Form.rule kind ∈ [Form.rule .assignmentStatement, .rule .ifStatement,
              .rule .whileStatement, .rule .procedureStatement, .rule .untilStatement] :=
            List.mem_map_of_mem (Terminal.mem_of_statementRule? hkind)
          exact .oneOf hkind' (Form.derives_inOrder_singleton.1 h)
  | assignmentRemainder =>
      by_cases hseen : seen = .stringConstant
      · rw [Rule.body, if_pos hseen] at predicted
        cases predicted
        exact .oneOf (by simp [Part.form]) (Form.derives_inOrder_singleton.1 h)
      · rw [Rule.body, if_neg hseen] at predicted
        cases predicted
        exact .oneOf (by simp [Part.form]) (Form.derives_inOrder_singleton.1 h)
  | ifRemainder =>
      by_cases hseen : seen = .elseWord
      · rw [Rule.body, if_pos hseen] at predicted
        cases predicted
        obtain ⟨g, rfl, hg⟩ := Form.derives_ofParts_terminal.1 h
        exact .supplied (Form.derives_inOrder_singleton.1 hg)
      · rw [Rule.body, if_neg hseen] at predicted
        cases predicted
        obtain rfl := Form.derives_ofParts_nil.1 h
        exact vanishing rfl
  | expressionRemainder =>
      by_cases hseen : seen.isArithmetic = true
      · rw [Rule.body, if_pos hseen] at predicted
        cases predicted
        obtain ⟨g, rfl, hg⟩ := Form.derives_ofParts_terminal.1 h
        refine .oneOf List.mem_cons_self ?_
        exact Form.derives_inOrder_anyOf_leaf.2 ⟨(Terminal.isArithmetic_iff seen).1 hseen, hg⟩
      · rw [Rule.body, if_neg hseen] at predicted
        split at predicted
        · cases predicted
          obtain rfl := Form.derives_ofParts_nil.1 h
          exact vanishing rfl
        · cases predicted
  | factor =>
      by_cases hseen : seen.isFactor = true
      · rw [Rule.body, if_pos hseen] at predicted
        cases predicted
        obtain ⟨g, rfl, hg⟩ := Form.derives_ofParts_terminal.1 h
        obtain rfl := Form.derives_ofParts_nil.1 hg
        rcases (Terminal.isFactor_iff seen).1 hseen with rfl | rfl
        · exact .oneOf (by simp) (.terminal _ next)
        · exact .oneOf (by simp) (.terminal _ next)
      · rw [Rule.body, if_neg hseen] at predicted
        split at predicted
        · cases predicted
          exact .oneOf (by simp [Form.ofParts, Part.form]) h
        · cases predicted
  | conditionRemainder =>
      by_cases hseen : seen.isOperand = true
      · rw [Rule.body, if_pos hseen] at predicted
        cases predicted
        obtain ⟨g, rfl, hg⟩ := Form.derives_ofParts_terminal.1 h
        obtain rfl := Form.derives_ofParts_nil.1 hg
        exact Form.derives_anyOf.2 ⟨seen, (Terminal.isOperand_iff seen).1 hseen, rfl⟩
      · rw [Rule.body, if_neg hseen] at predicted
        cases predicted
  | conditionalOperator =>
      by_cases hseen : seen.isConditional = true
      · rw [Rule.body, if_pos hseen] at predicted
        cases predicted
        obtain ⟨g, rfl, hg⟩ := Form.derives_ofParts_terminal.1 h
        obtain rfl := Form.derives_ofParts_nil.1 hg
        exact Form.derives_anyOf.2 ⟨seen, (Terminal.isConditional_iff seen).1 hseen, rfl⟩
      · rw [Rule.body, if_neg hseen] at predicted
        cases predicted
  -- the other rules have one production, whatever is seen
  | statementPart | statementList | assignmentStatement | ifStatement | whileStatement
  | procedureStatement | untilStatement | expression | argumentList | condition =>
      cases predicted
      exact h

/-- A rule that is predicted to be empty may be empty there. -/
theorem Rule.production_derives_nil {ending : Ending} {r : Rule} {next : Terminal}
    (lenient : ∀ opener next, Ending.longest opener next → ending opener next)
    (predicted : r.body next = .ok []) : r.production.Derives ending [] next := by
  cases r with
  | ifRemainder =>
      refine .omitted (lenient _ _ ?_)
      rintro rfl
      cases predicted
  | expressionRemainder =>
      rw [Rule.body] at predicted
      split at predicted
      · cases predicted
      · split at predicted
        · next hends =>
            exact .oneOf (by simp) (.emptyBefore ((Terminal.endsExpression_iff next).1 hends))
        · cases predicted
  | statement | assignmentRemainder | factor | conditionRemainder | conditionalOperator =>
      rw [Rule.body] at predicted
      repeat' split at predicted
      all_goals cases predicted
  | statementPart | statementList | assignmentStatement | ifStatement | whileStatement
  | procedureStatement | untilStatement | expression | argumentList | condition =>
      cases predicted

/-- **A continuation ends or goes on.** It derives nothing where it may end, and otherwise its
opener and another round. -/
theorem Form.derives_ofParts_continuation {ending : Ending} {k : Continuation}
    {parts : List Part} {f : Forest Terminal} {next : Terminal} :
    (ofParts (.continuation k :: parts)).Derives ending f next ↔
      ending k.opener (Forest.ahead f next) ∧ (ofParts parts).Derives ending f next ∨
        ∃ g, f = .leaf k.opener :: g ∧ (ofParts (k.round ++ parts)).Derives ending g next := by
  constructor
  · intro h
    obtain ⟨g, rest, rfl, hg, hrest⟩ := derives_inOrder_cons.1 h
    cases k with
    | statements =>
        rcases derives_many.1 hg with ⟨rfl, hend⟩ | ⟨_, x, rfl, hstatement, hx⟩
        · exact .inl ⟨hend, hrest⟩
        · obtain ⟨children, rfl, hchildren⟩ := derives_rule.1 hstatement
          refine .inr ⟨.node .statement children :: (x ++ rest), rfl, ?_⟩
          refine derives_ofParts_rule.2 ⟨children, x ++ rest, rfl, ?_, .inOrder hx hrest⟩
          rw [Forest.ahead_append]
          exact hchildren
    | arguments =>
        rcases derives_optional.1 hg with ⟨rfl, hend⟩ | ⟨_, rfl, harguments⟩
        · exact .inl ⟨hend, hrest⟩
        · exact .inr ⟨_, rfl, .inOrder harguments hrest⟩
  · rintro (⟨hend, hparts⟩ | ⟨g, rfl, hround⟩)
    · refine derives_inOrder_cons.2 ⟨[], f, rfl, ?_, hparts⟩
      cases k with
      | statements => exact .ended hend
      | arguments => exact .omitted hend
    · cases k with
      | statements =>
          obtain ⟨_, _, rfl, hfirst, hlater⟩ := derives_inOrder_cons.1 hround
          obtain ⟨x, y, rfl, hx, hy⟩ := derives_inOrder_cons.1 hlater
          rw [Forest.ahead_append] at hfirst
          rw [← List.append_assoc]
          exact .inOrder (.continued hfirst hx) hy
      | arguments =>
          obtain ⟨_, _, rfl, hfirst, hlater⟩ := derives_inOrder_cons.1 hround
          exact .inOrder (.supplied hfirst) hlater

/-- **What is read is derived**, with endings as strict as any. -/
theorem Reads.derives {ending : Ending} {parts : List Part} {f : Forest Terminal}
    {next : Terminal} (h : Reads parts f next)
    (lenient : ∀ opener next, Ending.longest opener next → ending opener next) :
    (Form.ofParts parts).Derives ending f next := by
  induction h with
  | nil next => exact .done next
  | terminal _ ih => exact Form.derives_ofParts_terminal.2 ⟨_, rfl, ih⟩
  | @rule r body parts children f next hbody _ _ ihChildren ihRest =>
      refine Form.derives_ofParts_rule.2 ⟨children, f, rfl, ?_, ihRest⟩
      refine Rule.derives_of_body hbody ?_ ihChildren
      -- an empty production was predicted by the terminal after the rule, so that one allows it
      rintro rfl
      obtain rfl := Form.derives_ofParts_nil.1 ihChildren
      exact Rule.production_derives_nil lenient hbody
  | @continuation k parts f next _ ih =>
      refine Form.derives_ofParts_continuation.2 ?_
      by_cases hseen : Forest.ahead f next = k.opener
      · rw [hseen, k.body_opener, List.cons_append] at ih
        exact .inr (Form.derives_ofParts_terminal.1 ih)
      · rw [Continuation.body_of_ne hseen, List.nil_append] at ih
        exact .inl ⟨lenient _ _ hseen, ih⟩

/-! ### Derivations are readings -/

/-- **The openers of a part**: the terminals that would have continued its last optional part or
repetition, if they followed it. -/
def Part.openers : Part → List Terminal
  | .rule .statementList => [.semicolon]
  | .rule .ifRemainder => [.elseWord, .semicolon]
  | .rule .argumentList => [.comma]
  | .continuation k => [k.opener]
  | _ => []

/-- A part is clear in front of a terminal if it cannot end there and be continued by it. -/
def Part.Clear (ending : Ending) (p : Part) (next : Terminal) : Prop :=
  ∀ opener ∈ p.openers, ending opener next → next ≠ opener

/-- Each part is clear in front of whatever the parts after it derive. -/
def AllClear (ending : Ending) : List Part → Terminal → Prop
  | [], _ => True
  | p :: parts, next =>
      (∀ f, (Form.ofParts parts).Derives ending f next →
        p.Clear ending (Forest.ahead f next)) ∧ AllClear ending parts next

namespace AllClear

variable {ending : Ending} {p : Part} {parts : List Part} {next : Terminal}

theorem singleton (h : p.Clear ending next) : AllClear ending [p] next := by
  refine ⟨?_, trivial⟩
  intro f hf
  obtain rfl := Form.derives_ofParts_nil.1 hf
  exact h

/-- A part that nothing could continue is clear in front of everything. -/
theorem cons_of_openers (h : p.openers = []) (rest : AllClear ending parts next) :
    AllClear ending (p :: parts) next := by
  refine ⟨?_, rest⟩
  intro f _ opener hmem
  rw [h] at hmem
  cases hmem

/-- Parts that nothing could continue are clear. -/
theorem of_openers (h : ∀ p ∈ parts, p.openers = []) : AllClear ending parts next := by
  induction parts with
  | nil => trivial
  | cons p parts ih =>
      exact .cons_of_openers (h p List.mem_cons_self)
        (ih fun q hq => h q (List.mem_cons_of_mem _ hq))

/-- A part is clear in front of a terminal that is none of its openers. -/
theorem cons_terminal {t : Terminal} (h : t ∉ p.openers)
    (rest : AllClear ending (.terminal t :: parts) next) :
    AllClear ending (p :: .terminal t :: parts) next := by
  refine ⟨?_, rest⟩
  intro f hf opener hmem _
  obtain ⟨g, rfl, -⟩ := Form.derives_ofParts_terminal.1 hf
  rintro rfl
  exact h hmem

/-- Another round of a continuation is clear where the continuation was. -/
theorem round {k : Continuation} (h : AllClear ending (.continuation k :: parts) next) :
    AllClear ending (k.round ++ parts) next := by
  cases k with
  | statements => exact .cons_of_openers rfl h
  | arguments => exact h

end AllClear

/-- **Productions are clear**: inside a production, no part is followed by a terminal that would
have continued it. -/
theorem Rule.allClear_body {ending : Ending} {r : Rule} {seen next : Terminal}
    {body : List Part} (predicted : r.body seen = .ok body)
    (clear : (Part.rule r).Clear ending next) : AllClear ending body next := by
  cases r with
  | statementPart =>
      cases predicted
      exact .cons_of_openers rfl (.cons_terminal (by decide) (.singleton nofun))
  | statementList =>
      cases predicted
      exact .cons_of_openers rfl (.singleton clear)
  | ifStatement =>
      cases predicted
      refine .cons_of_openers rfl (.cons_of_openers rfl (.cons_of_openers rfl ⟨?_, ?_⟩))
      -- after the statements comes `else` or, if there is none, `end`
      · intro f hf
        obtain ⟨children, _, rfl, hchildren, hend⟩ := Form.derives_ofParts_rule.1 hf
        obtain ⟨g, rfl, -⟩ := Form.derives_ofParts_terminal.1 hend
        rcases Form.derives_optional.1 hchildren with ⟨rfl, -⟩ | ⟨h, rfl, -⟩
        · exact fun opener hmem _ heq => by simp_all [Part.openers]
        · exact fun opener hmem _ heq => by simp_all [Part.openers]
      · exact .cons_terminal (by decide) (.cons_of_openers rfl (.singleton nofun))
  | ifRemainder =>
      rw [Rule.body] at predicted
      split at predicted
      · cases predicted
        refine .cons_of_openers rfl (.singleton ?_)
        intro opener hmem
        exact clear opener (List.mem_cons_of_mem _ hmem)
      · cases predicted
        trivial
  | whileStatement =>
      cases predicted
      exact .cons_of_openers rfl (.cons_of_openers rfl (.cons_of_openers rfl
        (.cons_terminal (by decide) (.cons_of_openers rfl (.singleton nofun)))))
  | procedureStatement =>
      cases predicted
      exact .cons_of_openers rfl (.cons_of_openers rfl (.cons_of_openers rfl
        (.cons_terminal (by decide) (.singleton nofun))))
  | untilStatement =>
      cases predicted
      exact .cons_of_openers rfl (.cons_terminal (by decide)
        (.cons_of_openers rfl (.singleton nofun)))
  | argumentList =>
      cases predicted
      exact .cons_of_openers rfl (.singleton clear)
  | statement =>
      cases hkind : seen.statementRule? with
      | none => simp [Rule.body, hkind] at predicted
      | some kind =>
          simp only [Rule.body, hkind] at predicted
          cases predicted
          have := Terminal.mem_of_statementRule? hkind
          refine .of_openers ?_
          cases kind <;> simp_all [Part.openers]
  | assignmentRemainder | expressionRemainder | factor | conditionRemainder
  | conditionalOperator =>
      rw [Rule.body] at predicted
      repeat' split at predicted
      all_goals cases predicted
      all_goals exact .of_openers (by simp [Part.openers])
  | assignmentStatement | expression | condition =>
      cases predicted
      exact .of_openers (by simp [Part.openers])

/-- Each kind of statement starts with its own terminal. -/
theorem Rule.statementRule?_ahead {ending : Ending} {kind : Rule} {f : Forest Terminal}
    {next : Terminal} (hkind : Form.rule kind ∈ [Form.rule .assignmentStatement,
      .rule .ifStatement, .rule .whileStatement, .rule .procedureStatement, .rule .untilStatement])
    (h : kind.production.Derives ending f next) :
    (Forest.ahead f next).statementRule? = some kind := by
  simp only [List.mem_cons, Form.rule.injEq, List.not_mem_nil, or_false] at hkind
  rcases hkind with rfl | rfl | rfl | rfl | rfl <;>
    · obtain ⟨g, rfl, -⟩ := Form.derives_inOrder_terminal.1 h
      rfl

/-- An expression does not start like a string. -/
theorem Rule.ahead_expression_ne {ending : Ending} {f : Forest Terminal} {next : Terminal}
    (h : (Rule.expression).production.Derives ending f next) :
    Forest.ahead f next ≠ .stringConstant := by
  obtain ⟨children, g, rfl, hfactor, -⟩ := Form.derives_inOrder_rule.1 h
  obtain ⟨part, hmem, hpart⟩ := Form.derives_oneOf.1 hfactor
  simp only [List.mem_cons, List.not_mem_nil, or_false] at hmem
  rcases hmem with rfl | rfl | rfl
  · obtain rfl := Form.derives_terminal.1 hpart
    nofun
  · obtain rfl := Form.derives_terminal.1 hpart
    nofun
  · obtain ⟨_, rfl, -⟩ := Form.derives_inOrder_terminal.1 hpart
    nofun

/-- **Prediction is complete**: the terminal that a rule's production starts with, or is followed
by if it is empty, predicts a production that derives the same. -/
theorem Rule.exists_body {ending : Ending} {r : Rule} {f : Forest Terminal} {next : Terminal}
    (h : r.production.Derives ending f next) (clear : (Part.rule r).Clear ending next) :
    ∃ body, r.body (Forest.ahead f next) = .ok body ∧
      (Form.ofParts body).Derives ending f next := by
  cases r with
  | statementPart | statementList | assignmentStatement | ifStatement | whileStatement
  | procedureStatement | untilStatement | expression | argumentList | condition =>
      exact ⟨_, rfl, h⟩
  | statement =>
      obtain ⟨part, hmem, hpart⟩ := Form.derives_oneOf.1 h
      obtain ⟨kind, rfl⟩ : ∃ kind, part = .rule kind := by
        simp only [List.mem_cons, List.not_mem_nil, or_false] at hmem
        rcases hmem with rfl | rfl | rfl | rfl | rfl <;> exact ⟨_, rfl⟩
      obtain ⟨children, rfl, hchildren⟩ := Form.derives_rule.1 hpart
      refine ⟨[.rule kind], ?_, Form.derives_inOrder_singleton.2 hpart⟩
      simp only [Rule.body, Forest.ahead_node, Forest.ahead_nil,
        Rule.statementRule?_ahead hmem hchildren]
  | assignmentRemainder =>
      obtain ⟨part, hmem, hpart⟩ := Form.derives_oneOf.1 h
      simp only [List.mem_cons, List.not_mem_nil, or_false] at hmem
      rcases hmem with rfl | rfl
      · obtain rfl := Form.derives_terminal.1 hpart
        exact ⟨[.terminal .stringConstant], rfl, Form.derives_inOrder_singleton.2 hpart⟩
      · obtain ⟨children, rfl, hchildren⟩ := Form.derives_rule.1 hpart
        refine ⟨[.rule .expression], if_neg ?_, Form.derives_inOrder_singleton.2 hpart⟩
        rw [Forest.ahead_node]
        exact Rule.ahead_expression_ne hchildren
  | ifRemainder =>
      rcases Form.derives_optional.1 h with ⟨rfl, hend⟩ | ⟨g, rfl, hg⟩
      · refine ⟨[], ?_, .done next⟩
        exact if_neg (clear .elseWord List.mem_cons_self hend)
      · exact ⟨_, rfl, Form.derives_ofParts_terminal.2
          ⟨g, rfl, Form.derives_inOrder_singleton.2 hg⟩⟩
  | expressionRemainder =>
      obtain ⟨part, hmem, hpart⟩ := Form.derives_oneOf.1 h
      simp only [List.mem_cons, List.not_mem_nil, or_false] at hmem
      rcases hmem with rfl | rfl
      · obtain ⟨t, ht, g, rfl, hg⟩ := Form.derives_inOrder_anyOf.1 hpart
        exact ⟨[.terminal t, .rule .factor], if_pos ((Terminal.isArithmetic_iff t).2 ht),
          Form.derives_ofParts_terminal.2 ⟨g, rfl, hg⟩⟩
      · obtain ⟨rfl, hnext⟩ := Form.derives_emptyBefore.1 hpart
        refine ⟨[], ?_, .done next⟩
        simp only [List.mem_cons, List.not_mem_nil, or_false] at hnext
        rcases hnext with rfl | rfl <;> rfl
  | factor =>
      obtain ⟨part, hmem, hpart⟩ := Form.derives_oneOf.1 h
      simp only [List.mem_cons, List.not_mem_nil, or_false] at hmem
      rcases hmem with rfl | rfl | rfl
      · obtain rfl := Form.derives_terminal.1 hpart
        exact ⟨[.terminal .identifier], rfl, Form.derives_inOrder_singleton.2 hpart⟩
      · obtain rfl := Form.derives_terminal.1 hpart
        exact ⟨[.terminal .numberConstant], rfl, Form.derives_inOrder_singleton.2 hpart⟩
      · obtain ⟨g, rfl, -⟩ := Form.derives_inOrder_terminal.1 hpart
        exact ⟨_, rfl, hpart⟩
  | conditionRemainder =>
      obtain ⟨t, hmem, rfl⟩ := Form.derives_anyOf.1 h
      exact ⟨[.terminal t], if_pos ((Terminal.isOperand_iff t).2 hmem),
        Form.derives_inOrder_singleton.2 (.terminal t next)⟩
  | conditionalOperator =>
      obtain ⟨t, hmem, rfl⟩ := Form.derives_anyOf.1 h
      exact ⟨[.terminal t], if_pos ((Terminal.isConditional_iff t).2 hmem),
        Form.derives_inOrder_singleton.2 (.terminal t next)⟩

/-- **What is derived is read**, if no part is followed by a terminal that would have continued
it. The recursion is on the forest; only a continuation that ends leaves the forest as it is, and
then there is one part less. -/
theorem Reads.of_derives {ending : Ending} : (parts : List Part) → (f : Forest Terminal) →
    {next : Terminal} → (Form.ofParts parts).Derives ending f next →
      AllClear ending parts next → Reads parts f next
  | [], f, next, h, _ => by
      obtain rfl := Form.derives_ofParts_nil.1 h
      exact .nil next
  | .terminal t :: parts, f, next, h, clear => by
      obtain ⟨g, rfl, hg⟩ := Form.derives_ofParts_terminal.1 h
      exact .terminal (Reads.of_derives parts g hg clear.2)
  | .rule r :: parts, f, next, h, clear => by
      obtain ⟨children, g, rfl, hchildren, hg⟩ := Form.derives_ofParts_rule.1 h
      have hclear := clear.1 g hg
      obtain ⟨body, hbody, hderives⟩ := Rule.exists_body hchildren hclear
      exact .rule hbody
        (Reads.of_derives body children hderives (Rule.allClear_body hbody hclear))
        (Reads.of_derives parts g hg clear.2)
  | .continuation k :: parts, f, next, h, clear => by
      refine .continuation ?_
      rcases Form.derives_ofParts_continuation.1 h with ⟨hend, hparts⟩ | ⟨g, rfl, hround⟩
      · have hne := clear.1 f hparts k.opener List.mem_cons_self hend
        rw [Continuation.body_of_ne hne]
        exact Reads.of_derives parts f hparts clear.2
      · rw [Forest.ahead_leaf, k.body_opener]
        exact .terminal (Reads.of_derives (k.round ++ parts) g hround clear.round)
termination_by parts f => (sizeOf f, parts.length)

/-! ### Rules on their own and at the end of the input -/

/-- Nothing could have gone on in front of the sentinel. -/
theorem Part.clear_eof (ending : Ending) (p : Part) : p.Clear ending .eof := by
  intro opener hmem _
  rintro rfl
  cases p with
  | terminal t => cases hmem
  | rule r => cases r <;> simp [Part.openers] at hmem
  | continuation k => cases k <;> simp [Part.openers, Continuation.opener] at hmem

/-- **Reading a rule on its own** finds the derivations that end their optional parts and
repetitions only where these could not have gone on. -/
theorem reads_rule_iff_longest {r : Rule} {f : Forest Terminal} {next : Terminal} :
    Reads [.rule r] f next ↔ (Form.rule r).Derives .longest f next := by
  constructor
  · intro h
    exact Form.derives_inOrder_singleton.1 (h.derives fun _ _ h => h)
  · intro h
    exact Reads.of_derives _ _ (Form.derives_inOrder_singleton.2 h) (.singleton fun _ _ h => h)

/-- **Reading a rule at the end of the input** finds all its derivations. -/
theorem reads_rule_iff_derivation {r : Rule} {f : Forest Terminal} :
    Reads [.rule r] f .eof ↔ (Form.rule r).Derives .anywhere f .eof := by
  constructor
  · intro h
    exact Form.derives_inOrder_singleton.1 (h.derives fun _ _ _ => trivial)
  · intro h
    exact Reads.of_derives _ _ (Form.derives_inOrder_singleton.2 h)
      (.singleton (Part.clear_eof _ _))

/-- The words a rule derives with the longest endings are the words read for it. -/
theorem Rule.derives_longest_iff {r : Rule} {word : List Terminal} {next : Terminal} :
    r.Derives .longest word next ↔
      ∃ f, Reads [.rule r] f next ∧ Forest.frontier f = word := by
  simp only [Rule.derives_iff, reads_rule_iff_longest]

/-- The sentences of a rule are the words read for it at the end of the input. -/
theorem Rule.sentence_iff {r : Rule} {word : List Terminal} :
    r.Sentence word ↔ ∃ f, Reads [.rule r] f .eof ∧ Forest.frontier f = word := by
  simp only [Rule.Sentence, Rule.derives_iff, reads_rule_iff_derivation]

end SccSharp
