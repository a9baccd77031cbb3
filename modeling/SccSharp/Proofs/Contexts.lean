import SccSharp.Proofs.Moves

/-!
# What stands behind a rule

Every agenda of a parse is put together from the grammar: what is left of a production, then the
end of its rule, then what stands behind that rule, and so on outwards to the sentinel
(`Agenda.Formed`). Behind a rule stands what its place in a production leaves to do
(`Rule.places`, `Agenda.After`).

For most rules it follows that the next choice behind them is none that could fail: whatever the
token ahead, moves behind the rule lead to a terminal, which is one of a few unless the token itself
asks for more (`Agenda.After.boundFor`, `Agenda.BoundFor.exists_terminal`). Only a factor and the
operator of a condition have a choice right behind them.

## Main Definitions

* `Rule.places` — where a rule stands in the grammar
* `Agenda.After`, `Agenda.Formed` — what stands behind a rule, and agendas put together so
* `Rule.follow`, `Agenda.BoundFor` — the terminals asked for behind a rule, and agendas that come to
  ask for one of some terminals

## Main Statements

* `Agenda.Formed.of_moves`, `Agenda.Formed.of_passes` — every agenda of a parse is put together so
* `Agenda.After.boundFor` — what is asked for behind a rule
-/

namespace SccSharp

/-! ### Places -/

/-- **Where a rule stands in the grammar**: the rules with a production that holds it, each with the
parts behind it there. -/
def Rule.places : Rule → List (Rule × List Part)
  | .statementPart => []
  | .statementList =>
      [(.statementPart, [.terminal .endWord]),
        (.ifStatement, [.rule .ifRemainder, .terminal .endWord, .terminal .ifWord]),
        (.ifRemainder, []),
        (.whileStatement, [.terminal .endWord, .terminal .loopWord]),
        (.untilStatement, [.terminal .untilWord, .rule .condition])]
  | .statement => [(.statementList, [.continuation .statements])]
  | .assignmentStatement | .ifStatement | .whileStatement | .procedureStatement
  | .untilStatement => [(.statement, [])]
  | .assignmentRemainder => [(.assignmentStatement, [])]
  | .ifRemainder => [(.ifStatement, [.terminal .endWord, .terminal .ifWord])]
  | .expression => [(.assignmentRemainder, []), (.factor, [.terminal .rightParenthesis])]
  | .expressionRemainder => [(.expression, [])]
  | .factor => [(.expression, [.rule .expressionRemainder]), (.expressionRemainder, [])]
  | .argumentList =>
      [(.procedureStatement, [.terminal .rightParenthesis]), (.argumentList, [])]
  | .condition =>
      [(.ifStatement, [.terminal .thenWord, .rule .statementList, .rule .ifRemainder,
          .terminal .endWord, .terminal .ifWord]),
        (.whileStatement, [.terminal .loopWord, .rule .statementList, .terminal .endWord,
          .terminal .loopWord]),
        (.untilStatement, [])]
  | .conditionRemainder => [(.condition, [])]
  | .conditionalOperator => [(.condition, [.rule .conditionRemainder])]

/-- The rule whose production a continuation ends. -/
def Continuation.owner : Continuation → Rule
  | statements => .statementList
  | arguments => .argumentList

/-- **Parts that fit a rule**: every rule among them stands where the grammar has a place for it, a
continuation comes last, and nothing asks for the sentinel. -/
def Rule.Fits (q : Rule) : List Part → Prop
  | [] => True
  | .terminal t :: rest => t ≠ .eof ∧ q.Fits rest
  | .rule r :: rest => (q, rest) ∈ r.places ∧ q.Fits rest
  | .continuation k :: rest => q = k.owner ∧ rest = []

/-- Every production fits its rule. -/
theorem Rule.fits_body {q : Rule} {next : Terminal} {body : List Part}
    (predicted : q.body next = .ok body) : q.Fits body := by
  cases q with
  | statement =>
      cases hkind : next.statementRule? with
      | none => simp [Rule.body, hkind] at predicted
      | some kind =>
          simp only [Rule.body, hkind] at predicted
          cases predicted
          have hmem := Terminal.mem_of_statementRule? hkind
          cases kind <;> simp [Fits, places] at hmem ⊢
  | assignmentRemainder | ifRemainder =>
      rw [Rule.body] at predicted
      split at predicted
      all_goals
        cases predicted
        simp [Fits, places]
  | expressionRemainder | factor | conditionRemainder | conditionalOperator =>
      rw [Rule.body] at predicted
      repeat' split at predicted
      all_goals cases predicted
      all_goals simp [Fits, places]
      all_goals
        rintro rfl
        contradiction
  | statementPart | statementList | assignmentStatement | ifStatement | whileStatement
  | procedureStatement | untilStatement | expression | argumentList | condition =>
      cases predicted
      simp [Fits, places, Continuation.owner]

/-- What a continuation stands for fits the rule that it ends. -/
theorem Continuation.fits_body (k : Continuation) (next : Terminal) :
    k.owner.Fits (k.body next) := by
  by_cases hnext : next = k.opener
  · rw [hnext, k.body_opener]
    cases k <;> simp [Rule.Fits, Rule.places, opener, round, owner]
  · rw [body_of_ne hnext]
    trivial

/-- What stands behind a rule fits the rule around it. -/
theorem Rule.fits_of_mem_places {r q : Rule} {rest : List Part} (h : (q, rest) ∈ r.places) :
    q.Fits rest := by
  have hall : ∀ place ∈ r.places, place.1.Fits place.2 := by
    cases r <;> simp [places, Fits, Continuation.owner]
  exact hall _ h

namespace Agenda

/-! ### Behind a rule -/

/-- **What stands behind a rule**: the sentinel, or what its place in a production of another rule
leaves to do, with the end of that rule and what stands behind it. -/
inductive After : Rule → Agenda → Prop where
  | outermost {r : Rule} : After r [.part (.terminal .eof)]
  | inside {r q : Rule} {rest : List Part} {line : Int} {agenda : Agenda} :
      (q, rest) ∈ r.places → After q agenda →
        After r (rest.map .part ++ .close ⟨q, line⟩ :: agenda)

/-- **Agendas put together from the grammar**: a whole input, or parts that fit a rule, its end and
what stands behind it. -/
inductive Formed : Agenda → Prop where
  | done : Formed []
  | sentinel : Formed [.part (.terminal .eof)]
  | whole {start : Rule} : Formed (.whole start)
  | inside {q : Rule} {parts : List Part} {line : Int} {agenda : Agenda} :
      q.Fits parts → After q agenda → Formed (parts.map .part ++ .close ⟨q, line⟩ :: agenda)

section Formed

variable {r : Rule} {agenda last : Agenda}

/-- What stands behind a rule is put together from the grammar. -/
theorem After.formed (h : After r agenda) : Formed agenda := by
  cases h with
  | outermost => exact .sentinel
  | inside hplace hafter => exact .inside (Rule.fits_of_mem_places hplace) hafter

/-- So is the end of the rule with it. -/
theorem After.formed_close {o : OpenRule} (h : After o.rule agenda) : Formed (.close o :: agenda) :=
  @Formed.inside o.rule [] o.line agenda trivial h

namespace Formed

/-- Behind the end of a rule stands what stands behind the rule. -/
theorem after_close {o : OpenRule} (h : Formed (.close o :: agenda)) : After o.rule agenda := by
  generalize hall : Task.close o :: agenda = all at h
  cases h with
  | done | sentinel | whole => cases hall
  | @inside q parts line behind hfits hafter =>
      cases parts with
      | nil =>
          cases hall
          exact hafter
      | cons => cases hall

/-- Behind a rule stands what the grammar has behind it. -/
theorem after_rule (h : Formed (.part (.rule r) :: agenda)) : After r agenda := by
  generalize hall : Task.part (.rule r) :: agenda = all at h
  cases h with
  | done | sentinel => cases hall
  | whole =>
      cases hall
      exact .outermost
  | @inside q parts line behind hfits hafter =>
      cases parts with
      | nil => cases hall
      | cons p rest =>
          cases hall
          exact .inside hfits.1 hafter

/-- Behind a continuation stands the end of its rule. -/
theorem exists_of_continuation {k : Continuation}
    (h : Formed (.part (.continuation k) :: agenda)) :
    ∃ line behind, agenda = .close ⟨k.owner, line⟩ :: behind ∧ After k.owner behind := by
  generalize hall : Task.part (.continuation k) :: agenda = all at h
  cases h with
  | done | sentinel | whole => cases hall
  | @inside q parts line behind hfits hafter =>
      cases parts with
      | nil => cases hall
      | cons p rest =>
          cases hall
          obtain ⟨rfl, rfl⟩ := hfits
          exact ⟨line, behind, rfl, hafter⟩

/-- Behind a terminal stands the rest of its production, and behind the sentinel nothing. -/
theorem of_terminal {t : Terminal} (h : Formed (.part (.terminal t) :: agenda)) :
    Formed agenda ∧ (t = .eof → agenda = []) := by
  generalize hall : Task.part (.terminal t) :: agenda = all at h
  cases h with
  | done | whole => cases hall
  | sentinel =>
      cases hall
      exact ⟨.done, fun _ => rfl⟩
  | @inside q parts line behind hfits hafter =>
      cases parts with
      | nil => cases hall
      | cons p rest =>
          cases hall
          exact ⟨.inside hfits.2 hafter, fun ht => absurd ht hfits.1⟩

/-- **Moves keep to the grammar.** -/
theorem of_moves {next : Token} {events : List Event} (h : Formed agenda)
    (hmoves : Moves next agenda events last) : Formed last := by
  induction hmoves with
  | refl => exact h
  | close _ ih => exact ih h.after_close.formed
  | continuation _ ih =>
      obtain ⟨line, behind, rfl, hafter⟩ := h.exists_of_continuation
      exact ih (.inside (Continuation.fits_body _ _) hafter)
  | opening hbody _ ih => exact ih (.inside (Rule.fits_body hbody) h.after_rule)

/-- **Passing tokens keeps to the grammar.** -/
theorem of_passes {tokens : List Token} {events : List Event} (h : Formed agenda)
    (hpasses : Passes agenda tokens events last) : Formed last := by
  induction hpasses with
  | refl => exact h
  | pass hmoves _ ih => exact ih (h.of_moves hmoves).of_terminal.1

/-- Only the last token passed can be the sentinel. -/
theorem kind_ne_eof_of_passes {tokens : List Token} {events : List Event} (h : Formed agenda)
    (hpasses : Passes agenda tokens events last) (hlast : last ≠ []) :
    ∀ t ∈ tokens, t.kind ≠ .eof := by
  induction hpasses with
  | refl => exact List.forall_mem_nil _
  | pass hmoves hpasses ih =>
      obtain ⟨hrest, hnil⟩ := (h.of_moves hmoves).of_terminal
      refine List.forall_mem_cons.2 ⟨fun heof => ?_, ih hrest hlast⟩
      -- nothing is left to do behind the sentinel
      obtain rfl := hnil heof
      cases hpasses with
      | refl => exact hlast rfl
      | pass hmoves _ => cases hmoves

end Formed

end Formed

/-! ### What is asked for behind a rule -/

/-- **Bound for some terminals**: an agenda that asks for one of them next, unless the token ahead
asks for another round or an alternative first. No choice that could fail comes before. -/
inductive BoundFor (terminals : List Terminal) : Agenda → Prop where
  | terminal {t : Terminal} {agenda : Agenda} :
      t ∈ terminals → BoundFor terminals (.part (.terminal t) :: agenda)
  | close {o : OpenRule} {agenda : Agenda} :
      BoundFor terminals agenda → BoundFor terminals (.close o :: agenda)
  | continuation {k : Continuation} {agenda : Agenda} :
      BoundFor terminals agenda → BoundFor terminals (.part (.continuation k) :: agenda)
  | ifRemainder {agenda : Agenda} :
      BoundFor terminals agenda → BoundFor terminals (.part (.rule .ifRemainder) :: agenda)

/-- The terminals by which a token asks for another round or an alternative. -/
def askers : List Terminal :=
  [.semicolon, .comma, .elseWord]

theorem BoundFor.mono {terminals terminals' : List Terminal} {agenda : Agenda}
    (h : BoundFor terminals agenda) (hmono : ∀ t ∈ terminals, t ∈ terminals') :
    BoundFor terminals' agenda := by
  induction h with
  | terminal hmem => exact .terminal (hmono _ hmem)
  | close _ ih => exact .close ih
  | continuation _ ih => exact .continuation ih
  | ifRemainder _ ih => exact .ifRemainder ih

/-- **An agenda bound for some terminals comes to ask for one of them**, or for the terminal ahead
if that asks for more. -/
theorem BoundFor.exists_terminal {terminals : List Terminal} {next : Token} {agenda last : Agenda}
    {events : List Event} (h : BoundFor terminals agenda)
    (hmoves : Moves next agenda events last) (hlast : Still next.kind last) :
    ∃ t rest, last = .part (.terminal t) :: rest ∧
      (t ∈ terminals ∨ t = next.kind ∧ t ∈ askers) := by
  induction hmoves with
  | refl =>
      cases h with
      | terminal hmem => exact ⟨_, _, rfl, .inl hmem⟩
      | close | continuation => cases hlast
      | ifRemainder =>
          cases hlast with
          | @choice _ c _ herror =>
              have hrule := Rule.eq_rule_of_body_eq_error herror
              cases c <;> cases hrule
  | close _ ih =>
      cases h with
      | close h => exact ih h hlast
  | @continuation k _ _ _ hmoves ih =>
      cases h with
      | continuation h =>
          by_cases hnext : next.kind = k.opener
          · rw [hnext, k.body_opener] at hmoves
            obtain ⟨-, rfl⟩ := Still.terminal.eq_of_moves hmoves
            exact ⟨_, _, rfl, .inr ⟨hnext.symm, by cases k <;> decide⟩⟩
          · rw [Continuation.body_of_ne hnext] at ih
            exact ih h hlast
  | opening hbody hmoves ih =>
      cases h with
      | ifRemainder h =>
          by_cases hnext : next.kind = .elseWord
          · rw [Rule.body, if_pos hnext] at hbody
            cases hbody
            obtain ⟨-, rfl⟩ := Still.terminal.eq_of_moves hmoves
            exact ⟨_, _, rfl, .inr ⟨hnext.symm, by decide⟩⟩
          · rw [Rule.body, if_neg hnext] at hbody
            cases hbody
            exact ih (.close h) hlast

end Agenda

/-- The terminals that may be asked for behind a rule before the next choice that can fail. A factor
and the operator of a condition have none: such a choice comes right behind them. -/
def Rule.follow : Rule → List Terminal
  | .statementPart => [.eof]
  | .statementList | .statement | .assignmentStatement | .assignmentRemainder | .ifStatement
  | .whileStatement | .procedureStatement | .untilStatement => [.endWord, .untilWord, .eof]
  | .ifRemainder => [.endWord, .eof]
  | .expression | .expressionRemainder => [.rightParenthesis, .endWord, .untilWord, .eof]
  | .argumentList => [.rightParenthesis, .eof]
  | .condition | .conditionRemainder =>
      [.thenWord, .loopWord, .endWord, .untilWord, .eof]
  | .factor | .conditionalOperator => [.eof]

theorem Rule.eof_mem_follow (r : Rule) : .eof ∈ r.follow := by
  cases r <;> decide

/-- What a place leaves to do asks for a terminal of the follow set at once, or comes to the end of
a rule with a smaller one. -/
theorem Rule.follow_of_mem_places {r q : Rule} {rest : List Part} (h : (q, rest) ∈ r.places)
    (hfactor : r ≠ .factor) (hoperator : r ≠ .conditionalOperator) :
    (∃ t more, rest = .terminal t :: more ∧ t ∈ r.follow) ∨
    (∃ t more, rest = .rule .ifRemainder :: .terminal t :: more ∧ t ∈ r.follow) ∨
    ((rest = [] ∨ rest = [.continuation .statements]) ∧ q ≠ .factor ∧ q ≠ .conditionalOperator ∧
      ∀ t ∈ q.follow, t ∈ r.follow) := by
  have hall : ∀ place ∈ r.places,
      (∃ t more, place.2 = .terminal t :: more ∧ t ∈ r.follow) ∨
      (∃ t more, place.2 = .rule .ifRemainder :: .terminal t :: more ∧ t ∈ r.follow) ∨
      ((place.2 = [] ∨ place.2 = [.continuation .statements]) ∧ place.1 ≠ .factor ∧
        place.1 ≠ .conditionalOperator ∧ ∀ t ∈ place.1.follow, t ∈ r.follow) := by
    cases r with
    | factor => exact absurd rfl hfactor
    | conditionalOperator => exact absurd rfl hoperator
    | _ => simp [places, follow]
  exact hall _ h

/-- **What stands behind a rule asks for a terminal of its follow set**, unless the rule is a factor
or the operator of a condition. -/
theorem Agenda.After.boundFor {r : Rule} {agenda : Agenda} (h : After r agenda)
    (hfactor : r ≠ .factor) (hoperator : r ≠ .conditionalOperator) : BoundFor r.follow agenda := by
  induction h with
  | outermost => exact .terminal (Rule.eof_mem_follow _)
  | inside hplace _ ih =>
      rcases Rule.follow_of_mem_places hplace hfactor hoperator with
        ⟨t, more, rfl, ht⟩ | ⟨t, more, rfl, ht⟩ | ⟨hrest, hfactor', hoperator', hmono⟩
      · exact .terminal ht
      · exact .ifRemainder (.terminal ht)
      · have hbound := (ih hfactor' hoperator').mono hmono
        rcases hrest with rfl | rfl
        · exact .close hbound
        · exact .continuation (.close hbound)

end SccSharp
