/-!
# Syntactic categories

The seventeen nonterminals of SCC#. Four of them are remainders that keep the grammar free of left
recursion: of an assignment, an if statement, an expression and a condition.

## Main Definitions

* `Rule` — the nonterminals
* `Rule.label` — the bracketed name shown in traces and error trails
* `Rule.key` — the name a start rule is chosen by
-/

namespace SccSharp

/-- A nonterminal of the grammar. -/
inductive Rule where
  | statementPart
  | statementList
  | statement
  | assignmentStatement
  | assignmentRemainder
  | ifStatement
  | ifRemainder
  | whileStatement
  | procedureStatement
  | untilStatement
  | expression
  | expressionRemainder
  | factor
  | argumentList
  | condition
  | conditionRemainder
  | conditionalOperator
  deriving DecidableEq, Repr

namespace Rule

/-- Every rule once, in the order of the grammar. -/
def all : List Rule :=
  [statementPart, statementList, statement, assignmentStatement, assignmentRemainder,
    ifStatement, ifRemainder, whileStatement, procedureStatement, untilStatement,
    expression, expressionRemainder, factor, argumentList,
    condition, conditionRemainder, conditionalOperator]

/-- No rule is missing from the list. -/
theorem mem_all (r : Rule) : r ∈ all := by
  cases r <;> decide

/-- The bracketed name of a rule. -/
def label : Rule → String
  | statementPart => "<statement part>"
  | statementList => "<statement list>"
  | statement => "<statement>"
  | assignmentStatement => "<assignment statement>"
  | assignmentRemainder => "<assignment statement remainder>"
  | ifStatement => "<if statement>"
  | ifRemainder => "<if statement remainder>"
  | whileStatement => "<while statement>"
  | procedureStatement => "<procedure statement>"
  | untilStatement => "<until statement>"
  | expression => "<expression>"
  | expressionRemainder => "<expression remainder>"
  | factor => "<factor>"
  | argumentList => "<argument list>"
  | condition => "<condition>"
  | conditionRemainder => "<condition remainder>"
  | conditionalOperator => "<conditional operator>"

/-- Two rules with one label are equal. -/
theorem label_injective {q r : Rule} (h : q.label = r.label) : q = r :=
  have distinct : ∀ q ∈ all, ∀ r ∈ all, q.label = r.label → q = r := by decide
  distinct q (mem_all q) r (mem_all r) h

/-- The name by which a start rule is chosen. -/
def key : Rule → String
  | statementPart => "STATEMENT_PART"
  | statementList => "STATEMENT_LIST"
  | statement => "STATEMENT"
  | assignmentStatement => "ASSIGNMENT_STATEMENT"
  | assignmentRemainder => "ASSIGNMENT_REMAINDER"
  | ifStatement => "IF_STATEMENT"
  | ifRemainder => "IF_REMAINDER"
  | whileStatement => "WHILE_STATEMENT"
  | procedureStatement => "PROCEDURE_STATEMENT"
  | untilStatement => "UNTIL_STATEMENT"
  | expression => "EXPRESSION"
  | expressionRemainder => "EXPRESSION_REMAINDER"
  | factor => "FACTOR"
  | argumentList => "ARGUMENT_LIST"
  | condition => "CONDITION"
  | conditionRemainder => "CONDITION_REMAINDER"
  | conditionalOperator => "CONDITIONAL_OPERATOR"

/-- The rule chosen by a key. -/
def ofKey? (key : String) : Option Rule :=
  all.find? (·.key == key)

/-- A key read back gives its rule. -/
theorem ofKey?_key (r : Rule) : ofKey? r.key = some r := by
  cases r <;> decide

end Rule

end SccSharp
