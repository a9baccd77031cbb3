import SccSharp.Proofs.Viability

/-!
# What an error names as expected

A syntax error names a terminal or some alternatives as expected. They are chosen where the run
stands still, and moves by the token found have led there. A terminal named is viable if the same
moves could have been made by it: then, had it been found instead, the run would have gone on.

Nearly all moves can. A move that depends on the token ahead either is about to accept that token,
or takes a part to be left out. Another token may do the same or accept itself at once, except that
an expression remainder is left out only in front of a right parenthesis or a semicolon. So the
named terminals are viable (`Agenda.Moves.admits`), unless the token found has made the analyser
leave an expression remainder out (`EmptyRemainder`). In that case only a right parenthesis is
viable: the remainder stands at the very front, and anything else has to be an operator there.

Where the choice of the remainder itself fails, the two terminals that it may be left out for are
named whatever is around the expression. Which of them is viable depends on that
(`Agenda.After.admits_ending_iff`).

## Main Definitions

* `EmptyRemainder` — an expression remainder left out since the last token accepted
* `Choice.named` — the terminals that the alternatives of a choice start with

## Main Statements

* `Agenda.Moves.admits` — moves by one token can be made by another
* `Agenda.Moves.admits_asked_iff` — a terminal asked for is admitted, unless a remainder is left out
* `Agenda.Moves.admits_named` — an alternative is, unless the choice could be left out for it
* `Agenda.After.admits_ending_iff` — what an expression remainder may be left out for
* `expected_viable` — what an error names is viable, with the exceptions
-/

namespace SccSharp

/-! ### Expression remainders left out -/

/-- **An expression remainder left out** since the last token accepted: it has been opened and
closed, and no token has been accepted in it or after it. -/
def EmptyRemainder (events : List Event) : Prop :=
  ∃ before inside after,
    events = before ++ .opened .expressionRemainder ::
      (inside ++ .closed .expressionRemainder :: after) ∧
    Balanced inside ∧ acceptedTokens inside = [] ∧ acceptedTokens after = []

/-- Moves that leave an expression remainder out. -/
def LeavesOut (moves : List Event) : Prop :=
  ∃ first second, moves =
    first ++ .opened .expressionRemainder :: .closed .expressionRemainder :: second

theorem LeavesOut.cons {e : Event} {moves : List Event} (h : LeavesOut moves) :
    LeavesOut (e :: moves) := by
  obtain ⟨first, second, rfl⟩ := h
  exact ⟨e :: first, second, rfl⟩

namespace Agenda

variable {next : Token} {agenda last : Agenda} {moves : List Event}

/-- A rule opened on the way. -/
theorem Moves.split_opened {r : Rule} {first second : List Event}
    (h : Moves next agenda (first ++ .opened r :: second) last) :
    ∃ body rest, r.body next.kind = .ok body ∧
      Moves next agenda first (.part (.rule r) :: rest) ∧
      Moves next (body.map .part ++ .close ⟨r, next.line⟩ :: rest) second last := by
  generalize hall : first ++ .opened r :: second = all at h
  induction h generalizing first with
  | refl => cases first <;> cases hall
  | close hmoves ih =>
      cases first with
      | nil => cases hall
      | cons e first =>
          cases hall
          obtain ⟨body, rest, hbody, hfirst, hsecond⟩ := ih rfl
          exact ⟨body, rest, hbody, .close hfirst, hsecond⟩
  | continuation hmoves ih =>
      obtain ⟨body, rest, hbody, hfirst, hsecond⟩ := ih hall
      exact ⟨body, rest, hbody, .continuation hfirst, hsecond⟩
  | @opening r' body' agenda' _ _ hbody' hmoves ih =>
      cases first with
      | nil =>
          cases hall
          exact ⟨body', agenda', hbody', .refl, hmoves⟩
      | cons e first =>
          cases hall
          obtain ⟨body, rest, hbody, hfirst, hsecond⟩ := ih rfl
          exact ⟨body, rest, hbody, .opening hbody' hfirst, hsecond⟩

/-- An expression remainder that is closed again at once was left out, in front of a terminal that
an expression may stop in front of. -/
theorem Moves.exists_of_remainder {first second : List Event} (hsecond : second ≠ [])
    (h : Moves next agenda (first ++ .opened .expressionRemainder :: second) last) :
    ∃ rest later, next.kind.endsExpression = true ∧
      Moves next agenda first (.part (.rule .expressionRemainder) :: rest) ∧
      second = .closed .expressionRemainder :: later ∧ Moves next rest later last := by
  obtain ⟨body, rest, hbody, hfirst, hlater⟩ := h.split_opened
  rw [Rule.body] at hbody
  split at hbody
  · cases hbody
    exact absurd (Still.terminal.eq_of_moves hlater).1 hsecond
  · split at hbody
    · next hends =>
        cases hbody
        cases hlater with
        | refl => exact absurd rfl hsecond
        | close hlater => exact ⟨rest, _, hends, hfirst, rfl, hlater⟩
    · cases hbody

/-- Events behind the tokens passed in which none is accepted are among the moves since. -/
theorem Passes.suffix_of_acceptedTokens {tokens : List Token}
    {passed later before after : List Event} (h : Passes agenda tokens passed last)
    (hsplit : passed ++ later = before ++ after) (hafter : acceptedTokens after = []) :
    after <:+ later := by
  induction h generalizing before with
  | refl => exact ⟨before, hsplit.symm⟩
  | @pass t _ moves events _ _ _ hmoves _ ih =>
      rw [List.append_assoc, List.cons_append] at hsplit
      rcases List.append_eq_append_iff.1 hsplit with ⟨more, rfl, heq⟩ | ⟨more, hbefore, heq⟩
      · cases more with
        | nil =>
            rw [List.nil_append] at heq
            rw [← heq] at hafter
            cases hafter
        | cons e more =>
            exact ih (List.cons.inj heq).2
      · rw [heq, acceptedTokens_append, acceptedTokens_accepted] at hafter
        exact absurd hafter (by simp)

/-- **A remainder left out shows in the trace** of an error that asks for a terminal: it is one of
the moves made since the last token. -/
theorem Passes.emptyRemainder_iff {tokens : List Token} {passed : List Event} {fresh : Agenda}
    {found : Token} {expected : Expectation} (h : Passes agenda tokens passed fresh)
    (hmoves : Moves next fresh moves last) :
    EmptyRemainder (passed ++ moves ++ [.rejected found expected]) ↔ LeavesOut moves := by
  constructor
  · rintro ⟨before, inside, after, hsplit, -, hinside, hafter⟩
    rw [List.append_assoc] at hsplit
    have hnone : acceptedTokens (.opened .expressionRemainder ::
        (inside ++ .closed .expressionRemainder :: after)) = [] := by
      simp [hinside, hafter]
    obtain hnil | ⟨tail, htail, hsuffix⟩ :=
      List.suffix_concat_iff.1 (h.suffix_of_acceptedTokens hsplit hnone)
    · cases hnil
    · cases tail with
      | nil => cases htail
      | cons e tail =>
          obtain ⟨rfl, htail⟩ := List.cons.inj htail
          -- the closing is not the last event, so it is a move
          have hne : tail ≠ [] := by
            rintro rfl
            cases inside <;> simp at htail
          obtain ⟨first, rfl⟩ := hsuffix
          obtain ⟨rest, later, -, -, rfl, -⟩ := hmoves.exists_of_remainder hne
          exact ⟨first, later, rfl⟩
  · rintro ⟨first, second, rfl⟩
    have hnone := hmoves.acceptedTokens_eq
    rw [acceptedTokens_append, acceptedTokens_opened, acceptedTokens_closed,
      List.append_eq_nil_iff] at hnone
    refine ⟨passed ++ first, [], second ++ [.rejected found expected], by simp, .nil, rfl, ?_⟩
    rw [acceptedTokens_concat rfl, hnone.2]

/-! ### Moves by another token -/

theorem Admits.close {o : OpenRule} (h : agenda.Admits next) :
    Admits (.close o :: agenda) next := by
  obtain ⟨events, rest, hmoves⟩ := h
  exact ⟨_, rest, .close hmoves⟩

theorem Admits.continuation {k : Continuation}
    (h : Admits ((k.body next.kind).map .part ++ agenda) next) :
    Admits (.part (.continuation k) :: agenda) next := by
  obtain ⟨events, rest, hmoves⟩ := h
  exact ⟨_, rest, .continuation hmoves⟩

theorem Admits.opening {r : Rule} {body : List Part} (hbody : r.body next.kind = .ok body)
    (h : Admits (body.map .part ++ .close ⟨r, next.line⟩ :: agenda) next) :
    Admits (.part (.rule r) :: agenda) next := by
  obtain ⟨events, rest, hmoves⟩ := h
  exact ⟨_, rest, .opening hbody hmoves⟩

theorem admits_terminal (agenda : Agenda) (next : Token) :
    Admits (.part (.terminal next.kind) :: agenda) next :=
  ⟨[], agenda, .refl⟩

end Agenda

/-- **How a production depends on the terminal ahead.** It starts with that terminal, or with a
statement that does; or it is the empty remainder; or it is the production in front of any other
terminal as well, except where that terminal is accepted at once. -/
theorem Rule.body_cases {r : Rule} {seen : Terminal} {body : List Part}
    (h : r.body seen = .ok body) :
    (∃ rest, body = .terminal seen :: rest) ∨
    (∃ kind rest, body = [.rule kind] ∧ kind.body seen = .ok (.terminal seen :: rest)) ∨
    (r = .expressionRemainder ∧ body = [] ∧ seen.endsExpression = true) ∨
    ∀ other, r.body other = .ok body ∨ ∃ rest, r.body other = .ok (.terminal other :: rest) := by
  cases r with
  | statement =>
      cases hkind : seen.statementRule? with
      | none => simp [Rule.body, hkind] at h
      | some kind =>
          simp only [Rule.body, hkind] at h
          cases h
          refine .inr (.inl ⟨kind, ?_⟩)
          cases seen <;> cases hkind <;> exact ⟨_, rfl, rfl⟩
  | assignmentRemainder | ifRemainder =>
      rw [Rule.body] at h
      split at h
      · next hseen =>
          cases h
          exact .inl ⟨_, by rw [hseen]⟩
      · cases h
        refine .inr (.inr (.inr fun other => ?_))
        rw [Rule.body]
        split
        · next hother => exact .inr ⟨_, by rw [hother]⟩
        · exact .inl rfl
  | expressionRemainder =>
      rw [Rule.body] at h
      split at h
      · cases h
        exact .inl ⟨_, rfl⟩
      · split at h
        · next hends =>
            cases h
            exact .inr (.inr (.inl ⟨rfl, rfl, hends⟩))
        · cases h
  | factor =>
      rw [Rule.body] at h
      split at h
      · cases h
        exact .inl ⟨_, rfl⟩
      · split at h
        · next hseen =>
            cases h
            exact .inl ⟨_, by rw [hseen]⟩
        · cases h
  | conditionRemainder | conditionalOperator =>
      rw [Rule.body] at h
      split at h
      · cases h
        exact .inl ⟨_, rfl⟩
      · cases h
  | statementPart | statementList | assignmentStatement | ifStatement | whileStatement
  | procedureStatement | untilStatement | expression | argumentList | condition =>
      exact .inr (.inr (.inr fun other => .inl h))

/-- A remainder is left out in front of what an expression may stop in front of. -/
theorem Rule.body_of_endsExpression {t : Terminal} (h : t.endsExpression = true) :
    Rule.expressionRemainder.body t = .ok [] := by
  cases t <;> first | rfl | cases h

/-- No production starts with an expression remainder. -/
theorem Rule.body_ne_remainder_cons {r : Rule} {next : Terminal} {rest : List Part} :
    r.body next ≠ .ok (.rule .expressionRemainder :: rest) := by
  intro h
  have hfits := (Rule.fits_body h).1
  simp only [Rule.places, List.mem_singleton, Prod.mk.injEq] at hfits
  obtain ⟨rfl, -⟩ := hfits
  cases h

/-- A factor and the operator of a condition are never empty. -/
theorem Rule.ne_of_body_eq_nil {r : Rule} {next : Terminal} (h : r.body next = .ok []) :
    r ≠ .factor ∧ r ≠ .conditionalOperator := by
  constructor
  all_goals
    rintro rfl
    rw [Rule.body] at h
    repeat' split at h
    all_goals cases h

namespace Agenda

variable {next other : Token} {agenda last : Agenda} {moves : List Event}

/-- **Moves by one token can be made by another** on the same line, up to a standstill where that
token is admitted. If an expression remainder is left out on the way, the other token has to be one
that it may be left out for. -/
theorem Moves.admits (h : Moves next agenda moves last) (hstill : Still next.kind last)
    (hasks : ∀ rest, last ≠ .part (.terminal next.kind) :: rest)
    (hline : other.line = next.line)
    (hremainder : other.kind.endsExpression = true ∨ ¬ LeavesOut moves)
    (hlast : last.Admits other) : agenda.Admits other := by
  induction h with
  | refl => exact hlast
  | close _ ih =>
      exact (ih hstill hasks (hremainder.imp_right fun hnot h => hnot h.cons) hlast).close
  | @continuation k _ _ _ hmoves ih =>
      refine .continuation ?_
      by_cases hnext : next.kind = k.opener
      · rw [hnext, k.body_opener, ← hnext] at hmoves
        exact absurd (Still.terminal.eq_of_moves hmoves).2 (hasks _)
      · by_cases hother : other.kind = k.opener
        · rw [hother, k.body_opener, ← hother]
          exact admits_terminal _ _
        · rw [Continuation.body_of_ne hnext] at ih
          rw [Continuation.body_of_ne hother]
          exact ih hstill hasks hremainder hlast
  | opening hbody hmoves ih =>
      have htail := hremainder.imp_right fun hnot h => hnot (LeavesOut.cons h)
      rcases Rule.body_cases hbody with
        ⟨rest, rfl⟩ | ⟨kind, rest, rfl, hkind⟩ | ⟨rfl, rfl, hends⟩ | hsame
      · exact absurd (Still.terminal.eq_of_moves hmoves).2 (hasks _)
      · cases hmoves with
        | refl =>
            cases hstill with
            | choice herror => cases herror.symm.trans hkind
        | opening hbody' hmoves =>
            cases hkind.symm.trans hbody'
            exact absurd (Still.terminal.eq_of_moves hmoves).2 (hasks _)
      · cases hmoves with
        | refl => cases hstill
        | close hmoves =>
            have hother := hremainder.resolve_right fun hnot => hnot ⟨[], _, rfl⟩
            refine .opening (Rule.body_of_endsExpression hother) ?_
            rw [hline]
            exact ih hstill hasks htail hlast
      · rcases hsame other.kind with hbody' | ⟨rest, hbody'⟩
        · refine .opening hbody' ?_
          rw [hline]
          exact ih hstill hasks htail hlast
        · exact .opening hbody' (admits_terminal _ _)

/-! ### Behind a remainder left out -/

/-- What is bound for terminals has no expression remainder at its front. -/
theorem BoundFor.ne_remainder {terminals : List Terminal} (h : BoundFor terminals agenda)
    (opened : List OpenRule) (rest : Agenda) :
    agenda ≠ opened.map .close ++ .part (.rule .expressionRemainder) :: rest := by
  rintro rfl
  induction opened with
  | nil => cases h
  | cons o opened ih =>
      cases h with
      | close h => exact ih h

/-- **A remainder comes up only at the front**: moves that lead to it close rules and do nothing
else. -/
theorem Moves.exists_closes {rest : Agenda} (hformed : Formed agenda)
    (h : Moves next agenda moves (.part (.rule .expressionRemainder) :: rest)) :
    ∃ opened : List OpenRule,
      agenda = opened.map .close ++ .part (.rule .expressionRemainder) :: rest := by
  generalize hlast : Task.part (.rule .expressionRemainder) :: rest = last at h
  induction h with
  | refl => exact ⟨[], rfl⟩
  | @close o _ _ _ _ ih =>
      obtain ⟨opened, rfl⟩ := ih hformed.after_close.formed hlast
      exact ⟨o :: opened, rfl⟩
  | @continuation k _ _ _ hmoves ih =>
      obtain ⟨line, behind, rfl, hafter⟩ := hformed.exists_of_continuation
      by_cases hnext : next.kind = k.opener
      · rw [hnext, k.body_opener] at hmoves
        obtain ⟨-, rfl⟩ := Still.terminal.eq_of_moves hmoves
        cases hlast
      · rw [Continuation.body_of_ne hnext] at ih
        obtain ⟨opened, heq⟩ := ih hafter.formed_close hlast
        subst hlast
        have hbound := hafter.boundFor (by cases k <;> nofun) (by cases k <;> nofun)
        exact absurd heq (hbound.close.ne_remainder opened rest)
  | @opening r body _ _ _ hbody hmoves ih =>
      obtain ⟨opened, heq⟩ := ih (.inside (Rule.fits_body hbody) hformed.after_rule) hlast
      subst hlast
      cases body with
      | nil =>
          obtain ⟨hfactor, hoperator⟩ := Rule.ne_of_body_eq_nil hbody
          have hbound := hformed.after_rule.boundFor hfactor hoperator
          exact absurd heq (hbound.close.ne_remainder opened rest)
      | cons p body =>
          cases opened with
          | nil =>
              cases heq
              exact absurd hbody Rule.body_ne_remainder_cons
          | cons o opened => cases heq

/-- A terminal that is asked for is admitted, and no other. -/
@[simp] theorem admits_terminal_iff {t : Terminal} :
    Admits (.part (.terminal t) :: agenda) next ↔ next.kind = t := by
  constructor
  · rintro ⟨events, rest, hmoves⟩
    obtain ⟨-, heq⟩ := Still.terminal.eq_of_moves hmoves
    cases heq
    rfl
  · rintro rfl
    exact admits_terminal _ _

@[simp] theorem admits_close_iff {o : OpenRule} :
    Admits (.close o :: agenda) next ↔ agenda.Admits next := by
  constructor
  · rintro ⟨events, rest, hmoves⟩
    cases hmoves with
    | close hmoves => exact ⟨_, rest, hmoves⟩
  · exact .close

/-- Rules that are about to be closed admit what stands behind them does. -/
theorem admits_closes_iff (opened : List OpenRule) :
    Admits (opened.map .close ++ agenda) next ↔ agenda.Admits next := by
  induction opened with
  | nil => rfl
  | cons o opened ih => exact admits_close_iff.trans ih

/-- A remainder that may be left out in front of a token admits it if what stands behind does. -/
theorem admits_remainder_iff (hends : next.kind.endsExpression = true) :
    Admits (.part (.rule .expressionRemainder) :: agenda) next ↔ agenda.Admits next := by
  have hbody := Rule.body_of_endsExpression hends
  constructor
  · rintro ⟨events, rest, hmoves⟩
    cases hmoves with
    | opening hbody' hmoves =>
        cases hbody.symm.trans hbody'
        cases hmoves with
        | close hmoves => exact ⟨_, rest, hmoves⟩
  · exact fun h => .opening hbody h.close

/-- A choice that fails admits nothing. -/
theorem not_admits_of_body_error {r : Rule} {c : Choice} (h : r.body next.kind = .error c) :
    ¬ Admits (.part (.rule r) :: agenda) next := by
  rintro ⟨events, rest, hmoves⟩
  cases ((Still.choice h).eq_of_moves hmoves).2

/-- Behind a remainder left out, moves lead to a terminal that may follow an expression. -/
theorem Moves.exists_terminal_of_leavesOut (hformed : Formed agenda)
    (h : Moves next agenda moves last) (hstill : Still next.kind last) (hleaves : LeavesOut moves) :
    ∃ (opened : List OpenRule) (behind rest : Agenda) (t : Terminal),
      agenda = opened.map .close ++ .part (.rule .expressionRemainder) :: behind ∧
        last = .part (.terminal t) :: rest ∧
          (t ∈ Rule.expressionRemainder.follow ∨ t = next.kind) := by
  obtain ⟨first, second, rfl⟩ := hleaves
  obtain ⟨behind, later, -, hfirst, hlater, hmoves⟩ := h.exists_of_remainder (List.cons_ne_nil _ _)
  obtain ⟨opened, hagenda⟩ := hfirst.exists_closes hformed
  have hbound := (hformed.of_moves hfirst).after_rule.boundFor nofun nofun
  obtain ⟨t, rest, hlast, ht⟩ := hbound.exists_terminal hmoves hstill
  exact ⟨opened, behind, rest, t, hagenda, hlast, ht.imp_right And.left⟩

/-- **A terminal that is asked for behind a remainder left out is not viable**, unless it is a right
parenthesis: in place of the remainder only an operator could stand. -/
theorem Moves.not_admits_of_leavesOut {t : Terminal} {rest : Agenda} (hformed : Formed agenda)
    (h : Moves next agenda moves (.part (.terminal t) :: rest)) (hleaves : LeavesOut moves)
    (hne : next.kind ≠ t) (hother : other.kind = t) (ht : t ≠ .rightParenthesis) :
    ¬ agenda.Admits other := by
  obtain ⟨opened, behind, _, t, rfl, heq, hfollow⟩ :=
    h.exists_terminal_of_leavesOut hformed .terminal hleaves
  cases heq
  have herror : Rule.expressionRemainder.body t = .error .expressionRemainder := by
    rcases hfollow with hfollow | rfl
    · simp only [Rule.follow, List.mem_cons, List.not_mem_nil, or_false] at hfollow
      rcases hfollow with rfl | rfl | rfl | rfl
      · exact absurd rfl ht
      all_goals rfl
    · exact absurd rfl hne
  rw [admits_closes_iff]
  exact not_admits_of_body_error (hother ▸ herror)

/-- No choice fails behind a remainder left out. -/
theorem Moves.not_leavesOut_of_rule {r : Rule} {rest : Agenda} (hformed : Formed agenda)
    (h : Moves next agenda moves (.part (.rule r) :: rest))
    (hstill : Still next.kind (.part (.rule r) :: rest)) : ¬ LeavesOut moves := by
  intro hleaves
  obtain ⟨_, _, _, _, -, heq, -⟩ := h.exists_terminal_of_leavesOut hformed hstill hleaves
  cases heq

/-! ### Around an expression -/

/-- Behind a rule that always ends the rule around it. -/
theorem After.cases_of_places {r q : Rule} (h : After r agenda) (hplaces : r.places = [(q, [])]) :
    agenda = [.part (.terminal .eof)] ∨
      ∃ line behind, agenda = .close ⟨q, line⟩ :: behind ∧ After q behind := by
  cases h with
  | outermost => exact .inl rfl
  | inside hplace hafter =>
      rw [hplaces, List.mem_singleton] at hplace
      cases hplace
      exact .inr ⟨_, _, rfl, hafter⟩

/-- Behind an expression stands the end of an assignment or the parenthesis of a factor. -/
theorem After.cases_of_expression (h : After .expression agenda) :
    agenda = [.part (.terminal .eof)] ∨
      (∃ line behind, agenda = .close ⟨.assignmentRemainder, line⟩ :: behind ∧
        After .assignmentRemainder behind) ∨
      ∃ line behind, agenda =
        .part (.terminal .rightParenthesis) :: .close ⟨.factor, line⟩ :: behind := by
  cases h with
  | outermost => exact .inl rfl
  | inside hplace hafter =>
      simp only [Rule.places, List.mem_cons, Prod.mk.injEq, List.not_mem_nil, or_false] at hplace
      rcases hplace with ⟨rfl, rfl⟩ | ⟨rfl, rfl⟩
      · exact .inr (.inl ⟨_, _, rfl, hafter⟩)
      · exact .inr (.inr ⟨_, _, rfl⟩)

/-- Behind a statement stands the rest of a statement list. -/
theorem After.cases_of_statement (h : After .statement agenda) :
    agenda = [.part (.terminal .eof)] ∨ ∃ line behind, agenda =
      .part (.continuation .statements) :: .close ⟨.statementList, line⟩ :: behind := by
  cases h with
  | outermost => exact .inl rfl
  | inside hplace =>
      cases List.mem_singleton.1 hplace
      exact .inr ⟨_, _, rfl⟩

/-- The rules that an agenda is inside of, innermost first. -/
def around (agenda : Agenda) : List Rule :=
  (openRules agenda).map OpenRule.rule

@[simp] theorem around_part (p : Part) (agenda : Agenda) :
    around (.part p :: agenda) = around agenda := rfl

@[simp] theorem around_close (o : OpenRule) (agenda : Agenda) :
    around (.close o :: agenda) = o.rule :: around agenda := rfl

@[simp] theorem around_nil : around [] = [] := rfl

/-- Behind an assignment no right parenthesis is admitted. -/
theorem After.not_admits_rightParenthesis (h : After .assignmentRemainder agenda)
    (hnext : next.kind = .rightParenthesis) : ¬ agenda.Admits next := by
  rintro ⟨events, rest, hmoves⟩
  obtain ⟨t, _, heq, ht⟩ := (h.boundFor nofun nofun).exists_terminal hmoves .terminal
  cases heq
  rw [hnext] at ht
  revert ht
  decide

/-- Behind an assignment a semicolon is admitted if there is a statement list around it. -/
theorem After.admits_semicolon (h : After .assignmentRemainder agenda)
    (hnext : next.kind = .semicolon) :
    agenda.Admits next ↔ Rule.statementList ∈ agenda.around := by
  rcases h.cases_of_places rfl with rfl | ⟨_, _, rfl, hassignment⟩
  · simp [hnext]
  · rcases hassignment.cases_of_places rfl with rfl | ⟨_, _, rfl, hstatement⟩
    · simp [hnext]
    · rcases hstatement.cases_of_statement with rfl | ⟨_, _, rfl⟩
      · simp [hnext]
      · refine iff_of_true (.close (.close (.continuation ?_))) (by simp)
        rw [hnext]
        exact admits_terminal_iff.2 hnext

/-- **What may be left out for** behind an expression: a right parenthesis if the expression stands
in a factor, otherwise a semicolon if there is a statement list around it. -/
theorem After.admits_ending_iff (h : After .expressionRemainder agenda) (next : Token) :
    (next.kind = .rightParenthesis →
      (agenda.Admits next ↔ [.expression, .factor] <+: agenda.around)) ∧
    (next.kind = .semicolon →
      (agenda.Admits next ↔
        ¬ [.expression, .factor] <+: agenda.around ∧ Rule.statementList ∈ agenda.around)) := by
  rcases h.cases_of_places rfl with rfl | ⟨_, _, rfl, hexpression⟩
  · constructor
    all_goals
      intro hnext
      simp [hnext]
  · rcases hexpression.cases_of_expression with rfl | ⟨_, _, rfl, hassignment⟩ | ⟨_, _, rfl⟩
    · constructor
      all_goals
        intro hnext
        simp [hnext]
    · constructor
      all_goals intro hnext
      · simpa using hassignment.not_admits_rightParenthesis hnext
      · simpa using hassignment.admits_semicolon hnext
    · constructor
      all_goals
        intro hnext
        simp [hnext]

end Agenda

/-! ### Alternatives -/

/-- **The terminals that the alternatives of a choice start with**, in the order in which an error
names the alternatives. -/
def Choice.named : Choice → List Terminal
  | statement => [.identifier, .ifWord, .whileWord, .callWord, .doWord]
  | expressionRemainder => [.plus, .minus, .times, .divide, .rightParenthesis, .semicolon]
  | factor => [.identifier, .numberConstant, .leftParenthesis]
  | conditionRemainder => [.identifier, .numberConstant, .stringConstant]
  | conditionalOperator =>
      [.greaterThan, .greaterEqual, .equals, .notEqual, .lessThan, .lessEqual]

/-- How an error names the alternative that starts with a terminal: a statement by its rule, unless
it starts with an identifier, an operator by its spelling and any other terminal by its name. -/
def Choice.shown (c : Choice) (t : Terminal) : String :=
  match c, t.statementRule? with
  | .statement, some .assignmentStatement => t.name
  | .statement, some kind => kind.label
  | _, _ => ((Terminal.operators.find? (·.2 == t)).map Prod.fst).getD t.name

/-- An enumeration in words. -/
def enumeration : List String → String
  | [] => ""
  | [last] => last
  | [first, last] => first ++ " or " ++ last
  | first :: rest => first ++ ", " ++ enumeration rest

/-- The text of an error enumerates these alternatives and no others. -/
theorem Choice.alternatives_eq (c : Choice) :
    c.alternatives = enumeration (c.named.map fun t => "'" ++ c.shown t ++ "'") := by
  cases c <;> decide

/-- The alternatives named are those that the choice does not fail for. -/
theorem Choice.mem_named_iff (c : Choice) (t : Terminal) :
    t ∈ c.named ↔ (c.rule.body t).isOk = true := by
  cases c <;> cases t <;> decide

/-- The operators are among the alternatives of a remainder, and it is not left out for them. -/
theorem Choice.mem_named_of_isArithmetic {t : Terminal} (h : t.isArithmetic = true) :
    t ∈ expressionRemainder.named ∧ t.endsExpression = false := by
  revert h
  cases t <;> decide

/-- What a choice would have gone on with is admitted where it has failed, unless it may be left out
for that. -/
theorem Choice.admits_of_named {c : Choice} {seen : Terminal} {next : Token} (agenda : Agenda)
    (hfailed : c.rule.body seen = .error c) (hnamed : next.kind ∈ c.named)
    (hends : c = .expressionRemainder → next.kind.endsExpression = false) :
    Agenda.Admits (.part (.rule c.rule) :: agenda) next := by
  cases hbody : c.rule.body next.kind with
  | error =>
      rw [c.mem_named_iff, hbody] at hnamed
      cases hnamed
  | ok body =>
      refine .opening hbody ?_
      rcases Rule.body_cases hbody with
        ⟨rest, rfl⟩ | ⟨kind, rest, rfl, hkind⟩ | ⟨hrule, -, hends'⟩ | hsame
      · exact Agenda.admits_terminal _ _
      · exact .opening hkind (Agenda.admits_terminal _ _)
      · cases c <;> cases hrule
        cases (hends rfl).symm.trans hends'
      · rcases hsame seen with hok | ⟨_, hok⟩ <;> cases hfailed.symm.trans hok

namespace Agenda

variable {found other : Token} {fresh rest : Agenda} {moves : List Event}

/-- **A terminal asked for is admitted** where the moves to it have begun, unless they leave a
remainder out and it is no right parenthesis. -/
theorem Moves.admits_asked_iff {t : Terminal} (hformed : Formed fresh)
    (h : Moves found fresh moves (.part (.terminal t) :: rest)) (hne : found.kind ≠ t)
    (hkind : other.kind = t) (hline : other.line = found.line) :
    fresh.Admits other ↔ ¬ (LeavesOut moves ∧ t ≠ .rightParenthesis) := by
  constructor
  · rintro hadmits ⟨hleaves, ht⟩
    exact h.not_admits_of_leavesOut hformed hleaves hne hkind ht hadmits
  · intro hnot
    refine h.admits .terminal ?_ hline ?_ (admits_terminal_iff.2 hkind)
    · rintro rest' heq
      cases heq
      exact hne rfl
    · by_cases ht : t = .rightParenthesis
      · exact .inl (by rw [hkind, ht]; rfl)
      · exact .inr fun hleaves => hnot ⟨hleaves, ht⟩

/-- **An alternative of a choice is admitted** where the moves to the choice have begun, unless the
choice could have been left out for it. -/
theorem Moves.admits_named {c : Choice} (hformed : Formed fresh)
    (h : Moves found fresh moves (.part (.rule c.rule) :: rest))
    (hfailed : c.rule.body found.kind = .error c) (hnamed : other.kind ∈ c.named)
    (hends : c = .expressionRemainder → other.kind.endsExpression = false)
    (hline : other.line = found.line) : fresh.Admits other :=
  h.admits (.choice hfailed) nofun hline
    (.inr (h.not_leavesOut_of_rule hformed (.choice hfailed)))
    (c.admits_of_named rest hfailed hnamed hends)

/-- **What a remainder may be left out for is admitted** if what stands behind admits it. -/
theorem Moves.admits_behind_iff (hformed : Formed fresh)
    (h : Moves found fresh moves (.part (.rule .expressionRemainder) :: rest))
    (hends : other.kind.endsExpression = true) : fresh.Admits other ↔ rest.Admits other := by
  obtain ⟨opened, rfl⟩ := h.exists_closes hformed
  exact (admits_closes_iff opened).trans (admits_remainder_iff hends)

end Agenda

/-! ### What an error names -/

/-- The rules around an error that has just been raised. -/
theorem SyntaxError.rules_raised (expected : Expectation) (found : Token) (opened : List OpenRule) :
    ((raised expected found).withinAll opened).rules = opened.map fun o => o.rule.label := by
  simp [rules, withinAll, raised, OpenRule.frame, Function.comp_def]

/-- Labels are in front of others as rules are. -/
theorem Rule.map_label_prefix_iff (first rules : List Rule) :
    first.map Rule.label <+: rules.map Rule.label ↔ first <+: rules := by
  constructor
  · rintro ⟨rest, hrest⟩
    obtain ⟨start, later, rfl, hstart, -⟩ := List.map_eq_append_iff.1 hrest.symm
    rw [(List.map_inj_right fun _ _ => Rule.label_injective).1 hstart]
    exact List.prefix_append _ _
  · exact fun h => h.map _

/-- Labels are among others as rules are. -/
theorem Rule.label_mem_map_iff {r : Rule} {rules : List Rule} :
    r.label ∈ rules.map Rule.label ↔ r ∈ rules := by
  rw [List.mem_map]
  constructor
  · rintro ⟨r', hmem, hlabel⟩
    exact Rule.label_injective hlabel ▸ hmem
  · exact fun h => ⟨r, h, rfl⟩

/-- **What an error names as expected is viable**, except where the token found has made the
analyser leave an expression remainder out, or is one that it could not be left out for. Let a parse
of any source end in a syntax error.

* A terminal that is asked for is viable just if no expression remainder has been left out since the
  last token accepted, or the terminal is a right parenthesis.
* Where any other choice fails, all its alternatives are viable.
* Where the choice of an expression remainder fails, the operators are viable; the right parenthesis
  just if the expression stands directly in a factor; and the semicolon just if it does not and
  there is a statement list around it. -/
theorem expected_viable {σ ε : Type} [Feed σ ε] {limit : Option Nat} {source : σ} {start : Rule}
    {e : SyntaxError} {a : Analyser σ}
    (h : recorded limit source start = (some (.syntaxError e), a)) :
    let word := (acceptedTokens a.sink.events).map Token.kind
    let inFactor := [Rule.label .expressionRemainder, Rule.label .expression, Rule.label .factor]
    (∀ t line, e.expected = .terminal t line →
      (start.Viable word t ↔ ¬ (EmptyRemainder a.sink.events ∧ t ≠ .rightParenthesis))) ∧
    (∀ c line, e.expected = .choice c line → c ≠ .expressionRemainder →
      ∀ t ∈ c.named, start.Viable word t) ∧
    (∀ line, e.expected = .choice .expressionRemainder line →
      (∀ t, t.isArithmetic = true → start.Viable word t) ∧
      (start.Viable word .rightParenthesis ↔ inFactor <+: e.rules) ∧
      (start.Viable word .semicolon ↔
        ¬ inFactor <+: e.rules ∧ Rule.label .statementList ∈ e.rules)) := by
  intro word inFactor
  obtain ⟨agenda, fresh, passed, moved, last, hevents, hpasses, hmoves, hrejects⟩ :=
    exists_rejects_of_syntaxError h
  have hformed : Agenda.Formed fresh := Agenda.Formed.whole.of_passes hpasses
  -- a terminal is tried as a token in the place of the one found
  have hviable : ∀ t : Terminal, start.Viable word t ↔ fresh.Admits ⟨t, "", e.found.line⟩ :=
    fun t => hpasses.viable_iff_admits ⟨t, "", e.found.line⟩
  simp only [hviable, hevents]
  generalize e.found = found at hmoves hrejects ⊢
  cases hrejects with
  | @mismatch s rest hne =>
      refine ⟨fun t line ht => ?_, nofun, nofun⟩
      cases ht
      rw [hpasses.emptyRemainder_iff hmoves]
      exact hmoves.admits_asked_iff hformed hne rfl rfl
  | @choice c rest hfailed =>
      have hnamed : ∀ t ∈ c.named, (c = .expressionRemainder → t.endsExpression = false) →
          fresh.Admits ⟨t, "", found.line⟩ :=
        fun t ht hends => hmoves.admits_named hformed hfailed ht hends rfl
      refine ⟨nofun, fun _ _ heq hne t ht => ?_, fun _ heq => ?_⟩
      · cases heq
        exact hnamed t ht fun heq => absurd heq hne
      · cases heq
        have hbehind : ∀ t : Terminal, t.endsExpression = true →
            (fresh.Admits ⟨t, "", found.line⟩ ↔ rest.Admits ⟨t, "", found.line⟩) :=
          fun t ht => hmoves.admits_behind_iff hformed ht
        have hafter := (hformed.of_moves hmoves).after_rule
        have hrules : (⟨.expressionRemainder, found.line⟩ :: openRules rest).map
            (fun o => o.rule.label) = (Rule.expressionRemainder :: rest.around).map Rule.label := by
          simp [Agenda.around]
        have hinFactor : inFactor <+: (Rule.expressionRemainder :: rest.around).map Rule.label ↔
            [.expression, .factor] <+: rest.around :=
          (Rule.map_label_prefix_iff [.expressionRemainder, .expression, .factor] _).trans
            (by simp)
        rw [SyntaxError.rules_raised, Choice.rule, hrules, hinFactor, Rule.label_mem_map_iff]
        refine ⟨fun t ht => ?_, (hbehind _ rfl).trans ((hafter.admits_ending_iff _).1 rfl),
          (hbehind _ rfl).trans (((hafter.admits_ending_iff _).2 rfl).trans (by simp))⟩
        obtain ⟨hmem, hends⟩ := Choice.mem_named_of_isArithmetic ht
        exact hnamed t hmem fun _ => hends

/-- An assignment with a stray parenthesis behind it. -/
def strayParenthesis : TokenQueue :=
  ⟨[⟨.beginWord, "begin", 1⟩, ⟨.identifier, "x", 1⟩, ⟨.becomes, ":=", 1⟩,
    ⟨.numberConstant, "1", 1⟩, ⟨.rightParenthesis, ")", 1⟩, ⟨.endWord, "end", 1⟩], 1⟩

/-- What is done about it until the parenthesis is rejected. The remainder is opened behind twelve
events. -/
def strayParenthesisTrace : List Event :=
  [.opened .statementPart, .accepted ⟨.beginWord, "begin", 1⟩, .opened .statementList,
    .opened .statement, .opened .assignmentStatement, .accepted ⟨.identifier, "x", 1⟩,
    .accepted ⟨.becomes, ":=", 1⟩, .opened .assignmentRemainder, .opened .expression,
    .opened .factor, .accepted ⟨.numberConstant, "1", 1⟩, .closed .factor,
    .opened .expressionRemainder, .closed .expressionRemainder, .closed .expression,
    .closed .assignmentRemainder, .closed .assignmentStatement, .closed .statement,
    .closed .statementList]

/-- The parenthesis is reached with a remainder left out. -/
theorem steps_strayParenthesis :
    Cursor.Steps none (strayParenthesis.cursor .recording) (.whole .statementPart)
      ⟨⟨[⟨.endWord, "end", 1⟩], 1⟩, ⟨.rightParenthesis, ")", 1⟩, 4,
        .record strayParenthesisTrace.toArray⟩
      [.part (.terminal .endWord), .close ⟨.statementPart, 1⟩, .part (.terminal .eof)] := by
  refine .step (.opening rfl rfl) (.step (.accept rfl) ?_)
  refine .step (.opening rfl rfl) (.step (.opening rfl rfl) ?_)
  refine .step (.opening rfl rfl) (.step (.accept rfl) (.step (.accept rfl) ?_))
  refine .step (.opening rfl rfl) (.step (.opening rfl rfl) ?_)
  refine .step (.opening rfl rfl) (.step (.accept rfl) (.step .close ?_))
  refine .step (.opening rfl rfl) (.step .close ?_)
  refine .step .close (.step .close (.step .close (.step .close ?_)))
  exact .step .continuation (.step .close .refl)

/-- The error asks for the end of the statements, which could not stand there either. -/
theorem expected_viable_strayParenthesis :
    ∃ e a, recorded none strayParenthesis .statementPart = (some (.syntaxError e), a) ∧
      e.expected = .terminal .endWord 1 ∧
      ¬ Rule.statementPart.Viable [.beginWord, .identifier, .becomes, .numberConstant]
        .endWord := by
  have hrun := Cursor.run_eq_iff.2 ⟨_, _, steps_strayParenthesis, .mismatch nofun⟩
  have hparse : recorded none strayParenthesis .statementPart = (_, _) := parse_of_run rfl hrun
  have hremainder : EmptyRemainder (strayParenthesisTrace ++
      [.rejected ⟨.rightParenthesis, ")", 1⟩ (.terminal .endWord 1)]) :=
    ⟨strayParenthesisTrace.take 12, [], strayParenthesisTrace.drop 14 ++ [_], rfl, .nil, rfl, rfl⟩
  obtain ⟨hasked, -, -⟩ := expected_viable hparse
  exact ⟨_, _, hparse, rfl, fun hviable => (hasked .endWord 1 rfl).1 hviable ⟨hremainder, nofun⟩⟩

end SccSharp
