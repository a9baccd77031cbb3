import SccSharp.Rule
import SccSharp.Terminal

/-!
# The grammar

The productions of SCC#, predicted from one terminal of lookahead.

    <statement part>       ::= begin <statement list> end
    <statement list>       ::= <statement> ( ; <statement> )*
    <statement>            ::= <assignment statement> | <if statement> | <while statement>
                             | <procedure statement> | <until statement>
    <assignment statement> ::= identifier := <assignment statement remainder>
    <assignment statement remainder> ::= stringConstant | <expression>
    <if statement>         ::= if <condition> then <statement list>
                               <if statement remainder> end if
    <if statement remainder> ::= ( else <statement list> )?
    <while statement>      ::= while <condition> loop <statement list> end loop
    <procedure statement>  ::= call identifier ( <argument list> )
    <until statement>      ::= do <statement list> until <condition>
    <expression>           ::= <factor> <expression remainder>
    <expression remainder> ::= ( + | - | * | / ) <factor> | nothing
    <factor>               ::= identifier | numberConstant | ( <expression> )
    <argument list>        ::= identifier ( , <argument list> )?
    <condition>            ::= identifier <conditional operator> <condition remainder>
    <condition remainder>  ::= identifier | numberConstant | stringConstant
    <conditional operator> ::= > | >= | = | /= | < | <=

An expression remainder is empty only in front of a right parenthesis or a semicolon, which the
notation does not say.

## Main Definitions

* `Part` — what a production is made of
* `Rule.body` — the production of a rule in front of a terminal, or the choice that fails
* `Choice` — the rules whose choice can fail, with the text naming their alternatives
-/

namespace SccSharp

/-! ### Classes of terminals -/

namespace Terminal

/-- The kind of statement that a terminal starts. -/
def statementRule? : Terminal → Option Rule
  | identifier => some .assignmentStatement
  | ifWord => some .ifStatement
  | whileWord => some .whileStatement
  | callWord => some .procedureStatement
  | doWord => some .untilStatement
  | _ => none

/-- The operators between two factors. -/
def isArithmetic : Terminal → Bool
  | plus | minus | times | divide => true
  | _ => false

/-- The terminals that an expression may stop in front of. -/
def endsExpression : Terminal → Bool
  | rightParenthesis | semicolon => true
  | _ => false

/-- The terminals that are a factor. -/
def isFactor : Terminal → Bool
  | identifier | numberConstant => true
  | _ => false

/-- The terminals that are the right side of a condition. -/
def isOperand : Terminal → Bool
  | identifier | numberConstant | stringConstant => true
  | _ => false

/-- The operators of a condition. -/
def isConditional : Terminal → Bool
  | greaterThan | greaterEqual | equals | notEqual | lessThan | lessEqual => true
  | _ => false

end Terminal

/-! ### Choices that can fail -/

/-- A rule that fails where the lookahead starts none of its alternatives. -/
inductive Choice where
  | statement
  | expressionRemainder
  | factor
  | conditionRemainder
  | conditionalOperator
  deriving DecidableEq, Repr

namespace Choice

/-- The rule that makes the choice. -/
def rule : Choice → Rule
  | statement => .statement
  | expressionRemainder => .expressionRemainder
  | factor => .factor
  | conditionRemainder => .conditionRemainder
  | conditionalOperator => .conditionalOperator

/-- The alternatives, as an error text names them. -/
def alternatives : Choice → String
  | statement =>
      "'identifier', '<if statement>', '<while statement>', '<procedure statement>' or " ++
        "'<until statement>'"
  | expressionRemainder => "'+', '-', '*', '/', ')' or ';'"
  | factor => "'identifier', 'numberConstant' or '('"
  | conditionRemainder => "'identifier', 'numberConstant' or 'stringConstant'"
  | conditionalOperator => "'>', '>=', '=', '/=', '<' or '<='"

end Choice

/-- The choice that a rule makes, if it can fail. -/
def Rule.choice? : Rule → Option Choice
  | .statement => some .statement
  | .expressionRemainder => some .expressionRemainder
  | .factor => some .factor
  | .conditionRemainder => some .conditionRemainder
  | .conditionalOperator => some .conditionalOperator
  | _ => none

/-- A choice belongs to the rule that makes it. -/
theorem Rule.choice?_eq_some_iff {r : Rule} {c : Choice} : r.choice? = some c ↔ r = c.rule := by
  cases r <;> cases c <;> decide

/-! ### Productions -/

/-- What a rule may go on with, once for every terminal that asks for it. -/
inductive Continuation where
  /-- A semicolon and another statement, any number of times. -/
  | statements
  /-- A comma and the rest of the arguments, at most once. -/
  | arguments
  deriving DecidableEq, Repr

/-- A part of a production. -/
inductive Part where
  | terminal (t : Terminal)
  | rule (r : Rule)
  | continuation (c : Continuation)
  deriving DecidableEq, Repr

/-- What a continuation stands for in front of a terminal. -/
def Continuation.body : Continuation → Terminal → List Part
  | .statements, .semicolon =>
      [.terminal .semicolon, .rule .statement, .continuation .statements]
  | .arguments, .comma => [.terminal .comma, .rule .argumentList]
  | _, _ => []

/-- **The production of a rule** in front of a terminal. -/
def Rule.body (r : Rule) (next : Terminal) : Except Choice (List Part) :=
  match r with
  | .statementPart => .ok [.terminal .beginWord, .rule .statementList, .terminal .endWord]
  | .statementList => .ok [.rule .statement, .continuation .statements]
  | .statement =>
      match next.statementRule? with
      | some kind => .ok [.rule kind]
      | none => .error .statement
  | .assignmentStatement =>
      .ok [.terminal .identifier, .terminal .becomes, .rule .assignmentRemainder]
  | .assignmentRemainder =>
      if next = .stringConstant then .ok [.terminal .stringConstant] else .ok [.rule .expression]
  | .ifStatement =>
      .ok [.terminal .ifWord, .rule .condition, .terminal .thenWord, .rule .statementList,
        .rule .ifRemainder, .terminal .endWord, .terminal .ifWord]
  | .ifRemainder =>
      if next = .elseWord then .ok [.terminal .elseWord, .rule .statementList] else .ok []
  | .whileStatement =>
      .ok [.terminal .whileWord, .rule .condition, .terminal .loopWord, .rule .statementList,
        .terminal .endWord, .terminal .loopWord]
  | .procedureStatement =>
      .ok [.terminal .callWord, .terminal .identifier, .terminal .leftParenthesis,
        .rule .argumentList, .terminal .rightParenthesis]
  | .untilStatement =>
      .ok [.terminal .doWord, .rule .statementList, .terminal .untilWord, .rule .condition]
  | .expression => .ok [.rule .factor, .rule .expressionRemainder]
  | .expressionRemainder =>
      if next.isArithmetic then .ok [.terminal next, .rule .factor]
      else if next.endsExpression then .ok []
      else .error .expressionRemainder
  | .factor =>
      if next.isFactor then .ok [.terminal next]
      else if next = .leftParenthesis then
        .ok [.terminal .leftParenthesis, .rule .expression, .terminal .rightParenthesis]
      else .error .factor
  | .argumentList => .ok [.terminal .identifier, .continuation .arguments]
  | .condition =>
      .ok [.terminal .identifier, .rule .conditionalOperator, .rule .conditionRemainder]
  | .conditionRemainder =>
      if next.isOperand then .ok [.terminal next] else .error .conditionRemainder
  | .conditionalOperator =>
      if next.isConditional then .ok [.terminal next] else .error .conditionalOperator

/-- Only a rule that makes a choice can fail to have a production. -/
theorem Rule.eq_rule_of_body_eq_error {r : Rule} {next : Terminal} {c : Choice}
    (h : r.body next = .error c) : r = c.rule := by
  cases r <;> cases next <;> cases h <;> rfl

end SccSharp
