import SccSharp.Proofs.Contexts
import SccSharp.Proofs.Limits

/-!
# Progress

A parse cannot open rules for long without accepting a token. Every rule has a rank
(`Rule.rank`), and whatever rule is opened next in front of the same token has a smaller one: it is
the first rule of the production, or the production is empty and the rule stands behind it. There
are three ranks, so between two tokens at most three rules are opened, all of them different.

The ranks descend along the moves of an agenda (`Agenda.Moves.descends`), and moves need neither a
source nor a limit. So they descend between any two tokens passed, however many there are
(`Agenda.Passes.descending`), and along every trace (`recorded_descending`). All bounds on the
rules opened are read off from that.

## Main Definitions

* `openedRules` — the rules opened in some events
* `Rule.rank`, `Agenda.rank` — the rank of a rule, and of the rule that comes next
* `Descending` — ranks descend wherever no token is accepted
* `Progress` — the bounds on the rules opened in a trace

## Main Statements

* `Agenda.Moves.descends` — ranks descend from one token to the next
* `Descending.progress` — what follows for the rules opened
* `parse_progress` — every parse makes progress
-/

namespace SccSharp

/-! ### Rules opened -/

/-- The rule that an event opens. -/
def Event.opened? : Event → Option Rule
  | opened r => some r
  | _ => none

/-- **The rules opened** in some events, in order. -/
def openedRules (events : List Event) : List Rule :=
  events.filterMap Event.opened?

@[simp] theorem openedRules_nil : openedRules [] = [] := rfl

@[simp] theorem openedRules_append (first second : List Event) :
    openedRules (first ++ second) = openedRules first ++ openedRules second :=
  List.filterMap_append

@[simp] theorem openedRules_opened (r : Rule) (events : List Event) :
    openedRules (.opened r :: events) = r :: openedRules events := rfl

@[simp] theorem openedRules_closed (r : Rule) (events : List Event) :
    openedRules (.closed r :: events) = openedRules events := rfl

@[simp] theorem openedRules_accepted (t : Token) (events : List Event) :
    openedRules (.accepted t :: events) = openedRules events := rfl

/-- An event that opens nothing adds no rule. -/
theorem openedRules_concat {e : Event} (h : e.opened? = none) (events : List Event) :
    openedRules (events ++ [e]) = openedRules events := by
  have hnone : openedRules [e] = [] := List.filterMap_cons_none h
  rw [openedRules_append, hnone, List.append_nil]

/-! ### Ranks -/

/-- **The rank of a rule**: how many rules may be opened from its opening on until the next token is
accepted, itself included. -/
def Rule.rank : Rule → Nat
  | .statementList | .assignmentRemainder => 3
  | .statement | .expression | .expressionRemainder => 2
  | _ => 1

theorem Rule.rank_pos (r : Rule) : 0 < r.rank := by
  cases r <;> decide

theorem Rule.rank_le (r : Rule) : r.rank ≤ 3 := by
  cases r <;> decide

/-- The highest rank of a rule that comes right behind another one. -/
def Rule.rankBehind : Rule → Nat
  | .factor => 2
  | .statementPart | .ifRemainder | .argumentList => 0
  | _ => 1

namespace Agenda

/-- **The rank of an agenda**: that of the rule it comes to next, or none if it asks for a terminal
before. -/
def rank : Agenda → Nat
  | [] => 0
  | .close _ :: agenda => rank agenda
  | .part (.continuation _) :: agenda => rank agenda
  | .part (.terminal _) :: _ => 0
  | .part (.rule r) :: _ => r.rank

/-- **What stands behind a rule** comes to none of a higher rank. -/
theorem After.rank_le {r : Rule} {agenda : Agenda} (h : After r agenda) :
    agenda.rank ≤ r.rankBehind := by
  induction h with
  | outermost => exact Nat.zero_le _
  | @inside r q rest line agenda hplace _ ih =>
      have hall : ∀ place ∈ r.places, agenda.rank ≤ place.1.rankBehind →
          rank (place.2.map .part ++ .close ⟨place.1, line⟩ :: agenda) ≤ r.rankBehind := by
        cases r <;> simp [Rule.places, rank, Rule.rank, Rule.rankBehind] <;> omega
      exact hall _ hplace ih

/-- **The production of a rule comes to a rule of a smaller rank**, or, if it is empty, what stands
behind the rule does. -/
theorem rank_body_lt {r : Rule} {next : Terminal} {body : List Part} (h : r.body next = .ok body)
    (o : OpenRule) {agenda : Agenda} (hbehind : agenda.rank ≤ r.rankBehind) :
    rank (body.map .part ++ .close o :: agenda) < r.rank := by
  cases r with
  | statement =>
      cases hkind : next.statementRule? with
      | none => simp [Rule.body, hkind] at h
      | some kind =>
          simp only [Rule.body, hkind] at h
          cases h
          have hmem := Terminal.mem_of_statementRule? hkind
          cases kind <;> simp [rank, Rule.rank] at hmem ⊢
  | assignmentRemainder | ifRemainder =>
      rw [Rule.body] at h
      split at h
      all_goals
        cases h
        simp [rank, Rule.rank, Rule.rankBehind] at hbehind ⊢ <;> omega
  | expressionRemainder | factor | conditionRemainder | conditionalOperator =>
      rw [Rule.body] at h
      repeat' split at h
      all_goals cases h
      all_goals
        simp [rank, Rule.rank, Rule.rankBehind] at hbehind ⊢ <;> omega
  | statementPart | statementList | assignmentStatement | ifStatement | whileStatement
  | procedureStatement | untilStatement | expression | argumentList | condition =>
      cases h
      simp [rank, Rule.rank]

/-- Going on with a continuation comes to a token, or to what stands behind it. -/
theorem rank_continuation_le (k : Continuation) (next : Terminal) (agenda : Agenda) :
    rank ((k.body next).map .part ++ agenda) ≤ agenda.rank := by
  by_cases hnext : next = k.opener
  · rw [hnext, k.body_opener]
    cases k <;> exact Nat.zero_le _
  · rw [Continuation.body_of_ne hnext]
    exact Nat.le_refl _

/-- **Ranks descend** from one rank to another: those of the rules opened are not above the first
and above the second, and each is smaller than the one before. -/
structure Descends (top : Nat) (events : List Event) (bottom : Nat) : Prop where
  ranks : ((openedRules events).map Rule.rank).Pairwise (· > ·)
  below : ∀ r ∈ openedRules events, r.rank ≤ top
  above : ∀ r ∈ openedRules events, bottom < r.rank
  le : bottom ≤ top

namespace Descends

variable {top top' bottom : Nat} {events : List Event}

theorem refl (rank : Nat) : Descends rank [] rank :=
  ⟨.nil, List.forall_mem_nil _, List.forall_mem_nil _, Nat.le_refl _⟩

/-- A higher start. -/
theorem from_above (h : Descends top events bottom) (htop : top ≤ top') :
    Descends top' events bottom :=
  { h with
    below := fun r hr => Nat.le_trans (h.below r hr) htop
    le := Nat.le_trans h.le htop }

/-- One more rule, opened first. -/
theorem opened {r : Rule} (h : Descends top events bottom) (hr : top < r.rank) :
    Descends r.rank (.opened r :: events) bottom where
  ranks := by
    rw [openedRules_opened, List.map_cons]
    refine List.pairwise_cons.2 ⟨?_, h.ranks⟩
    intro rank hrank
    obtain ⟨q, hq, rfl⟩ := List.mem_map.1 hrank
    exact Nat.lt_of_le_of_lt (h.below q hq) hr
  below := by
    refine List.forall_mem_cons.2 ⟨Nat.le_refl _, fun q hq => ?_⟩
    exact Nat.le_trans (h.below q hq) (Nat.le_of_lt hr)
  above := List.forall_mem_cons.2 ⟨Nat.lt_of_le_of_lt h.le hr, h.above⟩
  le := Nat.le_trans h.le (Nat.le_of_lt hr)

end Descends

/-- **Ranks descend from one token to the next.** -/
theorem Moves.descends {next : Token} {agenda last : Agenda} {events : List Event}
    (h : Moves next agenda events last) (hformed : Formed agenda) :
    Descends agenda.rank events last.rank := by
  induction h with
  | refl => exact .refl _
  | close _ ih =>
      have hrest := ih hformed.after_close.formed
      exact ⟨hrest.ranks, hrest.below, hrest.above, hrest.le⟩
  | continuation _ ih =>
      obtain ⟨line, behind, rfl, hafter⟩ := hformed.exists_of_continuation
      have hrest := ih (.inside (Continuation.fits_body _ _) hafter)
      exact hrest.from_above (rank_continuation_le _ _ _)
  | opening hbody _ ih =>
      have hafter := hformed.after_rule
      have hrest := ih (.inside (Rule.fits_body hbody) hafter)
      exact hrest.opened (rank_body_lt hbody _ hafter.rank_le)

end Agenda

/-! ### Ranks along a trace -/

/-- **Ranks descend wherever no token is accepted.** -/
def Descending (events : List Event) : Prop :=
  ∀ segment, segment <:+: events → acceptedTokens segment = [] →
    ((openedRules segment).map Rule.rank).Pairwise (· > ·)

/-- Events between two tokens have their ranks descending if they do so as a whole. -/
theorem descending_of_ranks {events : List Event}
    (h : ((openedRules events).map Rule.rank).Pairwise (· > ·)) : Descending events :=
  fun _ hwithin _ => h.sublist ((hwithin.sublist.filterMap _).map _)

/-- Events that accept no token lie on one side of any token accepted. -/
theorem infix_of_accepted {segment first second : List Event} {t : Token}
    (h : segment <:+: first ++ .accepted t :: second) (hnone : acceptedTokens segment = []) :
    segment <:+: first ∨ segment <:+: second := by
  obtain ⟨before, after, hsplit⟩ := h
  rcases List.append_eq_append_iff.1 hsplit with ⟨part, hfirst, -⟩ | ⟨part, hpart, hafter⟩
  · exact .inl ⟨before, part, hfirst.symm⟩
  · cases part with
    | nil => exact .inl ⟨before, [], by rw [List.append_nil, hpart, List.append_nil]⟩
    | cons e part =>
        obtain ⟨rfl, rfl⟩ := List.cons.inj hafter
        rcases List.append_eq_append_iff.1 hpart with ⟨more, -, hsegment⟩ | ⟨more, -, hmore⟩
        · -- the token would be one of those in between
          rw [hsegment, acceptedTokens_append, acceptedTokens_accepted] at hnone
          exact absurd hnone (by simp)
        · cases more with
          | nil =>
              rw [← show _ = segment from hmore, acceptedTokens_accepted] at hnone
              cases hnone
          | cons e more =>
              obtain ⟨-, rfl⟩ := List.cons.inj hmore
              exact .inr ⟨more, after, rfl⟩

/-- Ranks descend on both sides of a token. -/
theorem Descending.accepted {first second : List Event} (h : Descending first)
    (h' : Descending second) (t : Token) : Descending (first ++ .accepted t :: second) := by
  intro segment hwithin hnone
  rcases infix_of_accepted hwithin hnone with hfirst | hsecond
  · exact h segment hfirst hnone
  · exact h' segment hsecond hnone

/-- **Ranks descend along all tokens passed**, and behind them if they do so there. -/
theorem Agenda.Passes.descending {agenda last : Agenda} {tokens : List Token}
    {passed later : List Event} (h : Passes agenda tokens passed last) (hformed : Formed agenda)
    (hlater : Descending later) : Descending (passed ++ later) := by
  induction h with
  | refl => exact hlater
  | pass hmoves _ ih =>
      have hrest := ih (hformed.of_moves hmoves).of_terminal.1
      rw [List.append_assoc, List.cons_append]
      exact (descending_of_ranks (hmoves.descends hformed).ranks).accepted hrest _

/-- Only the last token passed can be the sentinel. -/
theorem Agenda.Passes.kind_ne_eof {agenda last : Agenda} {tokens : List Token} {passed : List Event}
    (h : Passes agenda tokens passed last) (hformed : Formed agenda) :
    ∀ t ∈ tokens.dropLast, t.kind ≠ .eof := by
  rcases List.eq_nil_or_concat tokens with rfl | ⟨front, t, rfl⟩
  · exact List.forall_mem_nil _
  · rw [List.concat_eq_append] at h ⊢
    rw [List.dropLast_concat]
    obtain ⟨middle, before, after, hfront, hlast⟩ := h.of_append
    refine hformed.kind_ne_eof_of_passes hfront ?_
    rintro rfl
    cases hlast with
    | pass hmoves => cases hmoves

/-! ### Whole parses -/

section Parses

variable {σ ε : Type}

namespace Cursor

variable {c d : Cursor σ} {start : Rule} {agenda fresh : Agenda} {passed moved : List Event}

/-- The record after one more event. -/
theorem Stands.recorded_emit (h : c.Stands start agenda passed moved fresh) (e : Event) :
    (c.emit e).sink = .record (passed ++ (moved ++ [e])).toArray := by
  rw [emit, h.recorded, Sink.emit_record_toArray, List.append_assoc]

variable [Feed σ ε] {limit : Option Nat}

/-- The tokens that a run has passed have been drawn one after the other. -/
theorem Stands.leads {t : Token} {rest : σ} (h : c.Stands start agenda passed moved fresh)
    (hsteps : Steps limit (.first rest t .recording) (.whole start) c agenda) :
    Feed.Leads (t, rest) (acceptedTokens passed) c.front := by
  obtain ⟨events, hleads, hafter⟩ := hsteps.exists_after
  have hevents : events = passed ++ moved := by
    have hsink : c.sink = Sink.recording.emitAll events := by
      rw [hafter]
      rfl
    rw [← Sink.events_emitAll_recording events, ← hsink, h.recorded]
    rfl
  rw [hevents, acceptedTokens_append, h.moves.acceptedTokens_eq, List.append_nil] at hleads
  exact hleads

/-- **What a run has recorded when it halts**: the tokens passed, and events behind them that accept
nothing and have their ranks descending. All tokens passed have been passed before the halt, but
for one that the source fails behind. -/
theorem Stands.exists_of_halts {stop : Option (Stop ε)}
    (h : c.Stands start agenda passed moved fresh) (hhalts : Halts limit c agenda stop d) :
    ∃ (passed' later : List Event) (last : Agenda),
      (d.report stop).sink = .record (passed' ++ later).toArray ∧
        Agenda.Passes (.whole start) (acceptedTokens passed') passed' last ∧
        acceptedTokens later = [] ∧ ((openedRules later).map Rule.rank).Pairwise (· > ·) ∧
        (acceptedTokens passed').dropLast <+: acceptedTokens passed := by
  have hmoved := h.moves.acceptedTokens_eq
  have hdescends := h.moves.descends (Agenda.Formed.whole.of_passes h.passes)
  have hdrop := List.dropLast_prefix (acceptedTokens passed)
  cases hhalts with
  | done | mismatch =>
      refine ⟨passed, _, fresh, h.recorded_emit _, h.passes, ?_, ?_, hdrop⟩
      · rw [acceptedTokens_concat rfl, hmoved]
      · rw [openedRules_concat rfl]
        exact hdescends.ranks
  | @starved _ _ agenda =>
      have hpass : (c.after [c.lookahead] [.accepted c.lookahead] c.front).Stands start agenda
          (passed ++ (moved ++ [.accepted c.lookahead])) [] agenda := h.pass
      refine ⟨_, [], _, hpass.recorded, hpass.passes, rfl, .nil, ?_⟩
      rw [acceptedTokens_append, acceptedTokens_append, hmoved, List.nil_append]
      exact (List.dropLast_concat ..).symm ▸ List.prefix_rfl
  | @choice r alternatives agenda =>
      refine ⟨passed, moved ++ [.opened r] ++
        [.rejected c.lookahead (.choice alternatives c.lookahead.line)],
        fresh, ?_, h.passes, ?_, ?_, hdrop⟩
      · show ((c.emit (.opened r)).emit _).sink = _
        rw [emit, h.recorded_emit, Sink.emit_record_toArray, List.append_assoc]
      · rw [acceptedTokens_concat rfl, acceptedTokens_concat rfl, hmoved]
      · rw [openedRules_concat rfl, openedRules_append, List.map_append]
        refine List.pairwise_append.2 ⟨hdescends.ranks, List.pairwise_singleton _ _, ?_⟩
        intro rank hrank rank' hrank'
        obtain ⟨q, hq, rfl⟩ := List.mem_map.1 hrank
        rw [List.mem_singleton.1 hrank']
        exact hdescends.above q hq
  | tooDeep => exact ⟨passed, moved, fresh, h.recorded, h.passes, hmoved, hdescends.ranks, hdrop⟩

end Cursor

variable [Feed σ ε] {source rest : σ} {t : Token}

/-- **A whole parse, by what it passes.** -/
theorem exists_passes_of_recorded (limit : Option Nat) (start : Rule)
    (hfirst : Feed.draw source = (.ok t, rest)) :
    ∃ (passed later : List Event) (last : Agenda) (front : Token × σ),
      (recorded limit source start).2.sink.events = passed ++ later ∧
        Agenda.Passes (.whole start) (acceptedTokens passed) passed last ∧
        acceptedTokens later = [] ∧ ((openedRules later).map Rule.rank).Pairwise (· > ·) ∧
        Feed.Leads (t, rest) (acceptedTokens passed).dropLast front := by
  rcases recorded_cases limit source start with
    ⟨e, _, hfailed, -⟩ | ⟨t', rest', stop, d, hdraw, hrun, hparse⟩
  · rw [hfirst] at hfailed
    cases hfailed
  · cases hfirst.symm.trans hdraw
    obtain ⟨c, agenda, hsteps, hhalts⟩ := Cursor.run_eq_iff.1 hrun
    have hstart : (Cursor.first rest t .recording).Stands start (.whole start) [] []
        (.whole start) := ⟨rfl, .refl, .refl⟩
    obtain ⟨passed, moved, fresh, hstands⟩ := hstart.exists_of_steps hsteps
    obtain ⟨passed', later, last, hsink, hpasses, hnone, hranks, hprefix⟩ :=
      hstands.exists_of_halts hhalts
    have hleads := hstands.leads hsteps
    obtain ⟨tokens, hsplit⟩ := hprefix
    rw [← hsplit] at hleads
    obtain ⟨front, hfront, -⟩ := hleads.of_append
    refine ⟨passed', later, last, front, ?_, hpasses, hnone, hranks, hfront⟩
    rw [hparse, Analyser.sink, hsink]
    rfl

end Parses

/-- **Ranks descend along every trace.** -/
theorem recorded_descending {σ ε : Type} [Feed σ ε] (limit : Option Nat) (source : σ)
    (start : Rule) : Descending (recorded limit source start).2.sink.events := by
  cases hfirst : Feed.draw source with
  | mk outcome rest =>
      cases outcome with
      | error e =>
          rw [recorded, parse_of_draw_error start hfirst]
          exact descending_of_ranks .nil
      | ok t =>
          obtain ⟨passed, later, last, front, hevents, hpasses, -, hranks, -⟩ :=
            exists_passes_of_recorded limit start hfirst
          rw [hevents]
          exact hpasses.descending .whole (descending_of_ranks hranks)

/-! ### Bounds -/

/-- **Progress** along a trace. At most three rules are opened where no token is accepted; at every
moment, no more than three for each token accepted and another three; and no rule is opened twice,
whether it is closed meanwhile or still open, without a token accepted in between. -/
structure Progress (events : List Event) : Prop where
  between : ∀ segment, segment <:+: events → acceptedTokens segment = [] →
    (openedRules segment).length ≤ 3
  meanwhile : ∀ before, before <+: events →
    (openedRules before).length ≤ 3 * ((acceptedTokens before).length + 1)
  again : ∀ before middle after r,
    events = before ++ .opened r :: (middle ++ .opened r :: after) → acceptedTokens middle ≠ []

/-- Ranks that descend are no more than the highest one. -/
theorem length_le_of_ranks {rules : List Rule} {top : Nat}
    (h : (rules.map Rule.rank).Pairwise (· > ·)) (htop : ∀ r ∈ rules, r.rank ≤ top) :
    rules.length ≤ top := by
  induction rules generalizing top with
  | nil => exact Nat.zero_le _
  | cons r rules ih =>
      obtain ⟨hfirst, hrest⟩ := List.pairwise_cons.1 h
      obtain ⟨hr, -⟩ := List.forall_mem_cons.1 htop
      have hbelow : ∀ q ∈ rules, q.rank ≤ r.rank - 1 := by
        intro q hq
        have hlt := hfirst q.rank (List.mem_map_of_mem hq)
        omega
      have hlength := ih hrest hbelow
      have hpos := r.rank_pos
      rw [List.length_cons]
      omega

namespace Descending

variable {events : List Event}

/-- Where no token is accepted, three rules are opened at most. -/
theorem length_le (h : Descending events) {segment : List Event} (hwithin : segment <:+: events)
    (hnone : acceptedTokens segment = []) : (openedRules segment).length ≤ 3 :=
  length_le_of_ranks (h segment hwithin hnone) fun r _ => r.rank_le

/-- Some of the events have their ranks descending as well. -/
theorem of_segment {some_ : List Event} (h : Descending events) (hwithin : some_ <:+: events) :
    Descending some_ :=
  fun _ hsegment hnone => h _ (hsegment.trans hwithin) hnone

/-- Three rules are opened at most for each token accepted, and three behind the last one. -/
theorem length_le_mul {pending : List Event} (h : Descending (pending ++ events))
    (hpending : acceptedTokens pending = []) :
    (openedRules (pending ++ events)).length ≤ 3 * ((acceptedTokens events).length + 1) := by
  induction events generalizing pending with
  | nil =>
      rw [List.append_nil] at h ⊢
      exact h.length_le List.infix_rfl hpending
  | cons e events ih =>
      by_cases hflat : e.accepted? = none
      · have hmore := (acceptedTokens_concat hflat pending).trans hpending
        rw [List.append_cons] at h ⊢
        rw [acceptedTokens, List.filterMap_cons_none hflat]
        exact ih h hmore
      · cases e with
        | accepted t =>
            have hfirst := h.length_le (List.prefix_append _ _).isInfix hpending
            have hrest : Descending ([] ++ events) :=
              h.of_segment ⟨pending ++ [.accepted t], [], by simp⟩
            have hsecond := ih hrest rfl
            rw [openedRules_append, openedRules_accepted, List.length_append,
              acceptedTokens_accepted, List.length_cons]
            rw [List.nil_append] at hsecond
            omega
        | opened | closed | succeeded | rejected => exact absurd rfl hflat

/-- **What follows for the rules opened.** -/
theorem progress (h : Descending events) : Progress events where
  between := fun _ hwithin hnone => h.length_le hwithin hnone
  meanwhile := by
    intro before hprefix
    have hbefore : Descending ([] ++ before) := h.of_segment hprefix.isInfix
    exact hbefore.length_le_mul rfl
  again := by
    rintro before middle after r rfl hnone
    have hsegment : .opened r :: (middle ++ [.opened r]) <:+:
        before ++ .opened r :: (middle ++ .opened r :: after) := ⟨before, after, by simp⟩
    have hranks := h _ hsegment (by simp [hnone])
    rw [openedRules_opened, openedRules_append, openedRules_opened, List.map_cons] at hranks
    exact Nat.lt_irrefl _ ((List.pairwise_cons.1 hranks).1 r.rank (by simp))

end Descending

/-! ### Sources with an end -/

/-- A source with an end gives all tokens in front of it that are passed. -/
theorem Feed.Gives.length_le_of_leads {σ ε : Type} [Feed σ ε] {source rest : σ} {t last : Token}
    {tokens passed : List Token} {front : Token × σ} (h : Gives source tokens (.ok last))
    (hfirst : draw source = (.ok t, rest)) (hleads : Leads (t, rest) passed front)
    (hpassed : ∀ a ∈ passed, a.kind ≠ .eof) : passed.length ≤ tokens.length := by
  induction passed generalizing source t rest tokens with
  | nil => exact Nat.zero_le _
  | cons a passed ih =>
      obtain ⟨ha, hmore⟩ := List.forall_mem_cons.1 hpassed
      cases hleads with
      | pass hdraw hleads =>
          cases h with
          | sentinel hfirst' hlast =>
              cases hfirst.symm.trans hfirst'
              exact absurd hlast ha
          | token hfirst' _ hgives =>
              cases hfirst.symm.trans hfirst'
              exact Nat.succ_le_succ (ih hgives hdraw hleads hmore)

/-- The rules open are some of those opened. -/
theorem depth_le_length (events : List Event) : depth events ≤ (openedRules events).length := by
  induction events with
  | nil => exact Int.le_refl _
  | cons e events ih =>
      cases e with
      | opened r =>
          rw [depth_cons, openedRules_opened, List.length_cons, Event.rise]
          omega
      | closed r =>
          rw [depth_cons, openedRules_closed, Event.rise]
          omega
      | accepted | succeeded | rejected =>
          show 0 + depth events ≤ ((openedRules events).length : Int)
          omega

section

variable {σ ε : Type} [Feed σ ε] {source : σ} {tokens : List Token} {last : Token}

/-- No more is accepted than the tokens given and the sentinel. -/
theorem length_acceptedTokens_le (limit : Option Nat) (start : Rule)
    (h : Feed.Gives source tokens (.ok last)) :
    (acceptedTokens (recorded limit source start).2.sink.events).length ≤ tokens.length + 1 := by
  have hfirst : ∃ t rest, Feed.draw source = (.ok t, rest) := by
    cases h with
    | sentinel hdraw | token hdraw => exact ⟨_, _, hdraw⟩
  obtain ⟨t, rest, hfirst⟩ := hfirst
  obtain ⟨passed, later, _, front, hevents, hpasses, hnone, -, hleads⟩ :=
    exists_passes_of_recorded limit start hfirst
  have hlength := h.length_le_of_leads hfirst hleads (hpasses.kind_ne_eof .whole)
  rw [List.length_dropLast] at hlength
  rw [hevents, acceptedTokens_append, hnone, List.append_nil]
  omega

/-- **A source with an end bounds the rules opened.** -/
theorem length_openedRules_le (limit : Option Nat) (start : Rule)
    (h : Feed.Gives source tokens (.ok last)) :
    (openedRules (recorded limit source start).2.sink.events).length ≤
      3 * (tokens.length + 2) := by
  have haccepted := length_acceptedTokens_le limit start h
  have hopened := (recorded_descending limit source start).progress.meanwhile _ List.prefix_rfl
  omega

/-- Over a source with an end, a limit of as many rules is never hit. -/
theorem recorded_eq_unlimited {limit : Nat} (start : Rule)
    (h : Feed.Gives source tokens (.ok last)) (hlimit : 3 * (tokens.length + 2) ≤ limit) :
    recorded (some limit) source start = recorded none source start := by
  refine (recorded_widen (.unlimited _) fun e hstop => ?_).symm
  obtain ⟨before, hfront, hdeep⟩ := recorded_tooDeep_iff.1 ⟨e, hstop⟩
  have hle := depth_le_length before
  have hbefore : (openedRules before).length ≤
      (openedRules (recorded none source start).2.sink.events).length :=
    (hfront.sublist.filterMap _).length_le
  have hopened := length_openedRules_le none start h
  omega

/-- A parse without a limit is not given up. -/
theorem recorded_none_ne_tooDeep (source : σ) (start : Rule) (e : DepthError) :
    (recorded none source start).1 ≠ some (.tooDeep e) := by
  rcases recorded_cases none source start with
    ⟨failure, rest, -, hparse⟩ | ⟨t, rest, stop, d, -, hrun, hparse⟩
  · rw [hparse]
    exact nofun
  · rw [hparse]
    rintro rfl
    obtain ⟨c, agenda, -, hhalts⟩ := Cursor.run_eq_iff.1 hrun
    cases hhalts with
    | tooDeep hclosed => cases hclosed

end

/-! ### Every parse makes progress -/

/-- **Every parse makes progress.**

* From whatever source and under whatever limit, at most three rules are opened before the first
  token accepted, between two of them, and behind the last one. So at every moment there are at most
  three for each token accepted and another three, and no rule is opened again, be it open or not,
  before a token has been accepted.
* The same holds of any tokens passed and the moves by the next one. Every moment of a parse is of
  that form, also if its source has no end and only a part of it has been drawn.
* Where the source gives the sentinel behind a number of tokens, the parse ends without a limit. It
  opens no more than three rules for each of these tokens and another six, so that a limit of as
  many rules is never hit. -/
theorem parse_progress {σ ε : Type} [Feed σ ε] (source : σ) (start : Rule) :
    (∀ limit : Option Nat, Progress (recorded limit source start).2.sink.events) ∧
    (∀ (tokens : List Token) (next : Token) (passed moved : List Event) (fresh agenda : Agenda),
      Agenda.Passes (.whole start) tokens passed fresh → Agenda.Moves next fresh moved agenda →
        Progress (passed ++ moved)) ∧
    ∀ (tokens : List Token) (last : Token), Feed.Gives source tokens (.ok last) →
      (∀ e, (recorded none source start).1 ≠ some (.tooDeep e)) ∧
      (openedRules (recorded none source start).2.sink.events).length ≤
        3 * (tokens.length + 2) ∧
      ∀ limit, 3 * (tokens.length + 2) ≤ limit →
        recorded (some limit) source start = recorded none source start := by
  refine ⟨fun limit => (recorded_descending limit source start).progress, ?_, ?_⟩
  · intro tokens next passed moved fresh agenda hpasses hmoves
    have hmoved := (hmoves.descends (Agenda.Formed.whole.of_passes hpasses)).ranks
    exact (hpasses.descending .whole (descending_of_ranks hmoved)).progress
  · intro tokens last hgives
    exact ⟨recorded_none_ne_tooDeep source start, length_openedRules_le none start hgives,
      fun limit hlimit => recorded_eq_unlimited start hgives hlimit⟩

/-- What two arguments give. -/
theorem gives_twoArguments :
    Feed.Gives twoArguments twoArguments.tokens (.ok (.endOfInput 2)) :=
  .token rfl (by decide) (.token rfl (by decide) (.token rfl (by decide) (.sentinel rfl rfl)))

/-- An argument and a comma have been passed, and the second argument opens its list. -/
theorem passes_twoArguments : ∃ fresh agenda,
    Agenda.Passes (.whole .argumentList) [⟨.identifier, "a", 1⟩, ⟨.comma, ",", 1⟩]
        [.opened .argumentList, .accepted ⟨.identifier, "a", 1⟩, .accepted ⟨.comma, ",", 1⟩]
        fresh ∧
      Agenda.Moves ⟨.identifier, "b", 2⟩ fresh [.opened .argumentList] agenda := by
  have hfirst : Agenda.Moves ⟨.identifier, "a", 1⟩ (.whole .argumentList)
      [.opened .argumentList] _ := .opening rfl .refl
  have hcomma : Agenda.Moves ⟨.comma, ",", 1⟩ [.part (.continuation .arguments),
      .close ⟨.argumentList, 1⟩, .part (.terminal .eof)] [] _ := .continuation .refl
  exact ⟨_, _, .pass hfirst (.pass hcomma .refl), .opening rfl .refl⟩

/-- Two arguments and the comma between them are checked within fifteen rules. -/
theorem parse_progress_twoArguments :
    Progress [.opened .argumentList, .accepted ⟨.identifier, "a", 1⟩, .accepted ⟨.comma, ",", 1⟩,
        .opened .argumentList] ∧
      (openedRules (recorded none twoArguments .argumentList).2.sink.events).length ≤ 15 ∧
      recorded (some 15) twoArguments .argumentList =
        recorded none twoArguments .argumentList := by
  obtain ⟨-, hmoves, hend⟩ := parse_progress twoArguments .argumentList
  obtain ⟨fresh, agenda, hpasses, hopens⟩ := passes_twoArguments
  obtain ⟨-, hopened, hlimit⟩ := hend _ _ gives_twoArguments
  exact ⟨hmoves _ _ _ _ _ _ hpasses hopens, hopened, hlimit 15 (Nat.le_refl _)⟩

end SccSharp
