import SccSharp.Proofs.Steps

/-!
# Runs are steps

A run takes steps as long as its call stack has room for them. `Cursor.Overflows` has one
constructor for every place where there may be none, with what has happened by then: nothing where
a rule is opened or closed or a token is met, but the event of a token where the draw behind it is
given up, and the event of a rejection where a frame is. So a run is steps with room for each, up
to a halt with room for it or up to an overflow, and each of its results arises that way
(`runOn_eq_iff`).

A limit on the rules that are open leaves no room for one rule more, and room for everything else.
So a run under a limit is steps under the limit, up to a halt under it (`run_eq_iff`).

## Main Definitions

* `Cursor.Overflows`, `Cursor.HasRoom` — where a call stack has no room, and where it has
* `Cursor.StepsOn`, `Cursor.EndsOn` — steps with room for each, and the end of a run

## Main Statements

* `runOn_eq_iff` — runs on a call stack
* `run_eq_iff` — runs under a limit
* `run_widen`, `run_unlimited` — a limit changes nothing but that it may be hit
-/

namespace SccSharp

namespace Cursor

variable {σ ε : Type}

/-! ### Room -/

/-- **A rejection that is not told of in full**, among a number of open rules: there is no room for
its event, or for one of the frames, and then the event has been emitted. -/
inductive Unreported (stack : CallStack) (count : Nat) (c : Cursor σ) (expected : Expectation) :
    Cursor σ → Prop where
  | event : stack.room .rejecting count = false → Unreported stack count c expected c
  | frames : stack.room .rejecting count = true → stack.unwinds count = false →
      Unreported stack count c expected (c.emit (.rejected c.lookahead expected))

variable [Feed σ ε]

/-- **Where a call stack has no room** for what comes next, and the cursor that is left. -/
inductive Overflows (stack : CallStack) : Cursor σ → Agenda → Cursor σ → Prop where
  | closing {c : Cursor σ} {o : OpenRule} {agenda : Agenda} :
      stack.room .closing ((openRules agenda).length + 1) = false →
        Overflows stack c (.close o :: agenda) c
  | opening {c : Cursor σ} {r : Rule} {agenda : Agenda} :
      stack.room .opening (openRules agenda).length = false →
        Overflows stack c (.part (.rule r) :: agenda) c
  | accepting {c : Cursor σ} {agenda : Agenda} :
      stack.room .accepting (openRules agenda).length = false →
        Overflows stack c (.part (.terminal c.lookahead.kind) :: agenda) c
  | drawing {c : Cursor σ} {drawn : Except ε Token} {feed : σ} {agenda : Agenda} :
      stack.room .accepting (openRules agenda).length = true →
        Feed.draw c.feed = (drawn, feed) →
          stack.room (.ofDraw drawn) (openRules agenda).length = false →
            Overflows stack c (.part (.terminal c.lookahead.kind) :: agenda)
              (c.after [] [.accepted c.lookahead] (c.lookahead, feed))
  | mismatch {c d : Cursor σ} {t : Terminal} {agenda : Agenda} :
      c.lookahead.kind ≠ t →
        Unreported stack (openRules agenda).length c (.terminal t c.lookahead.line) d →
          Overflows stack c (.part (.terminal t) :: agenda) d
  | choice {c d : Cursor σ} {r : Rule} {alternatives : Choice} {agenda : Agenda} :
      stack.room .opening (openRules agenda).length = true →
        r.body c.lookahead.kind = .error alternatives →
          Unreported stack ((openRules agenda).length + 1) (c.emit (.opened r))
            (.choice alternatives c.lookahead.line) d →
            Overflows stack c (.part (.rule r) :: agenda) d

/-- **There is room** for what comes next. -/
def HasRoom (stack : CallStack) (c : Cursor σ) (agenda : Agenda) : Prop :=
  ∀ d, ¬ Overflows stack c agenda d

/-- **Steps with room** for each. -/
inductive StepsOn (stack : CallStack) : Cursor σ → Agenda → Cursor σ → Agenda → Prop where
  | refl {c : Cursor σ} {agenda : Agenda} : StepsOn stack c agenda c agenda
  | step {c c' d : Cursor σ} {agenda agenda' last : Agenda} :
      HasRoom stack c agenda → Step none c agenda c' agenda' →
        StepsOn stack c' agenda' d last → StepsOn stack c agenda d last

/-- **The end of a run on a call stack**: a halt, or an overflow, which gives the run up. -/
inductive EndsOn (stack : CallStack) :
    Cursor σ → Agenda → Option (Stop ε) → Cursor σ → Prop where
  | halts {c d : Cursor σ} {agenda : Agenda} {stop : Option (Stop ε)} :
      HasRoom stack c agenda → Halts none c agenda stop d → EndsOn stack c agenda stop d
  | overflows {c d : Cursor σ} {agenda : Agenda} :
      Overflows stack c agenda d → EndsOn stack c agenda (some c.giveUp) d

variable {stack : CallStack} {c d : Cursor σ} {agenda agenda' : Agenda}

/-! ### Terminals -/

theorem accept_of_ok {next : Token} {feed : σ} (h : Feed.draw c.feed = (.ok next, feed)) :
    c.accept c.lookahead.kind =
      (.ok c.lookahead, c.after [c.lookahead] [.accepted c.lookahead] (next, feed)) := by
  simp only [accept, if_true, emit, h]
  rfl

theorem accept_of_error {e : ε} {feed : σ} (h : Feed.draw c.feed = (.error e, feed)) :
    c.accept c.lookahead.kind =
      (.error (.sourceFailed e), c.after [] [.accepted c.lookahead] (c.lookahead, feed)) := by
  simp only [accept, if_true, emit, h]
  rfl

theorem accept_of_ne {t : Terminal} (h : c.lookahead.kind ≠ t) :
    c.accept t =
      (.error (.syntaxError (.raised (.terminal t c.lookahead.line) c.lookahead)),
        c.emit (.rejected c.lookahead (.terminal t c.lookahead.line))) := by
  rw [accept, if_neg h]
  rfl

section Terminals

variable {rules : List OpenRule} {t : Terminal} {expected : Expectation}

omit [Feed σ ε] in
/-- A rejection with room for its event and all frames. -/
theorem rejectWithin_of_room
    (h : ∀ d : Cursor σ, ¬ Unreported stack rules.length c expected d) :
    (c.rejectWithin stack rules expected : Stop ε × Cursor σ) =
      (.syntaxError ((SyntaxError.raised expected c.lookahead).withinAll rules),
        c.emit (.rejected c.lookahead expected)) := by
  have hevent : stack.room .rejecting rules.length = true :=
    eq_true_of_ne_false fun hfull => h _ (.event hfull)
  have hframes : stack.unwinds rules.length = true :=
    eq_true_of_ne_false fun hfull => h _ (.frames hevent hfull)
  rw [rejectWithin, if_pos hevent]
  dsimp only [reject]
  rw [if_pos hframes]
  rfl

omit [Feed σ ε] in
/-- A rejection that is not told of in full gives the parse up. -/
theorem Unreported.rejectWithin_eq (h : Unreported stack rules.length c expected d) :
    (c.rejectWithin stack rules expected : Stop ε × Cursor σ) = (c.giveUp, d) := by
  cases h with
  | event hfull => rw [rejectWithin, hfull, if_neg Bool.false_ne_true]
  | frames hevent hfull =>
      rw [rejectWithin, if_pos hevent, hfull]
      rfl

/-- A terminal that is met is accepted as it is by itself, where there is room for the draw. -/
theorem acceptWithin_of_room {drawn : Except ε Token} {feed : σ}
    (haccept : stack.room .accepting rules.length = true) (hdraw : Feed.draw c.feed = (drawn, feed))
    (hroom : stack.room (.ofDraw drawn) rules.length = true) :
    c.acceptWithin stack rules c.lookahead.kind = c.accept c.lookahead.kind := by
  rw [acceptWithin, if_pos rfl, if_pos haccept]
  cases drawn with
  | ok next =>
      rw [accept_of_ok hdraw]
      exact if_pos hroom
  | error e =>
      rw [accept_of_error hdraw]
      exact if_pos hroom

/-- Where there is no room for the draw, the event of the token has been emitted. -/
theorem acceptWithin_of_drawing {drawn : Except ε Token} {feed : σ}
    (haccept : stack.room .accepting rules.length = true) (hdraw : Feed.draw c.feed = (drawn, feed))
    (hfull : stack.room (.ofDraw drawn) rules.length = false) :
    c.acceptWithin stack rules c.lookahead.kind =
      (.error c.giveUp, c.after [] [.accepted c.lookahead] (c.lookahead, feed)) := by
  have hnot : ¬ stack.room (.ofDraw drawn) rules.length = true := by simp [hfull]
  rw [acceptWithin, if_pos rfl, if_pos haccept]
  cases drawn with
  | ok next =>
      rw [accept_of_ok hdraw]
      exact if_neg hnot
  | error e =>
      rw [accept_of_error hdraw]
      exact if_neg hnot

/-- **A terminal that is met is accepted** where there is room. -/
theorem HasRoom.acceptWithin_eq
    (h : HasRoom stack c (.part (.terminal c.lookahead.kind) :: agenda)) :
    c.acceptWithin stack (openRules agenda) c.lookahead.kind = c.accept c.lookahead.kind := by
  have haccept : stack.room .accepting (openRules agenda).length = true :=
    eq_true_of_ne_false fun hfull => h _ (.accepting hfull)
  cases hdraw : Feed.draw c.feed with
  | mk drawn feed =>
      have hroom : stack.room (.ofDraw drawn) (openRules agenda).length = true :=
        eq_true_of_ne_false fun hfull => h _ (.drawing haccept hdraw hfull)
      exact acceptWithin_of_room haccept hdraw hroom

/-- **Another terminal is rejected** where there is room. -/
theorem HasRoom.acceptWithin_of_ne (h : HasRoom stack c (.part (.terminal t) :: agenda))
    (hne : c.lookahead.kind ≠ t) :
    c.acceptWithin stack (openRules agenda) t =
      (.error (.syntaxError ((SyntaxError.raised (.terminal t c.lookahead.line)
        c.lookahead).withinAll (openRules agenda))),
        c.emit (.rejected c.lookahead (.terminal t c.lookahead.line))) := by
  have hreport : ∀ d, ¬ Unreported stack (openRules agenda).length c
      (.terminal t c.lookahead.line) d := fun d hreport => h d (.mismatch hne hreport)
  rw [acceptWithin, if_neg hne, rejectWithin_of_room hreport]

end Terminals

/-! ### Runs on a call stack -/

/-- There is room for a rule that finds its production. -/
theorem hasRoom_of_body {r : Rule} {body : List Part}
    (hopen : stack.room .opening (openRules agenda).length = true)
    (hbody : r.body c.lookahead.kind = .ok body) :
    HasRoom stack c (.part (.rule r) :: agenda) := by
  intro d h
  cases h with
  | opening hfull => exact Bool.false_ne_true (hfull.symm.trans hopen)
  | choice _ hnone => cases hbody.symm.trans hnone

/-- There is room for a terminal that is met. -/
theorem hasRoom_of_draw {drawn : Except ε Token} {feed : σ}
    (haccept : stack.room .accepting (openRules agenda).length = true)
    (hdraw : Feed.draw c.feed = (drawn, feed))
    (hroom : stack.room (.ofDraw drawn) (openRules agenda).length = true) :
    HasRoom stack c (.part (.terminal c.lookahead.kind) :: agenda) := by
  intro d h
  cases h with
  | accepting hfull => exact Bool.false_ne_true (hfull.symm.trans haccept)
  | drawing _ hdraw' hfull =>
      cases hdraw.symm.trans hdraw'
      exact Bool.false_ne_true (hfull.symm.trans hroom)
  | mismatch hne => exact hne rfl

omit [Feed σ ε] in
/-- There is room for all frames if there is room for each. -/
theorem unwinds_of_room {count : Nat}
    (h : ∀ k ≤ count, stack.room .framing k = true) : stack.unwinds count = true := by
  induction count with
  | zero => rfl
  | succ count ih =>
      rw [CallStack.unwinds, h _ (Nat.le_refl _), ih fun k hk => h k (Nat.le_succ_of_le hk)]
      rfl

/-- There is room for a rejection if there is room for its event and for all frames. -/
theorem not_unreported {count : Nat} {expected : Expectation}
    (hevent : stack.room .rejecting count = true) (hframes : stack.unwinds count = true) :
    ¬ Unreported stack count c expected d := by
  intro h
  cases h with
  | event hfull => exact Bool.false_ne_true (hfull.symm.trans hevent)
  | frames _ hfull => exact Bool.false_ne_true (hfull.symm.trans hframes)

/-- So there is for a terminal that is not met. -/
theorem hasRoom_of_ne {t : Terminal} (hne : c.lookahead.kind ≠ t)
    (hevent : stack.room .rejecting (openRules agenda).length = true)
    (hframes : stack.unwinds (openRules agenda).length = true) :
    HasRoom stack c (.part (.terminal t) :: agenda) := by
  intro d h
  cases h with
  | accepting | drawing => exact hne rfl
  | mismatch _ hreport => exact not_unreported hevent hframes hreport

/-- And for a rule that finds no production. -/
theorem hasRoom_of_choice {r : Rule}
    (hopen : stack.room .opening (openRules agenda).length = true)
    (hevent : stack.room .rejecting ((openRules agenda).length + 1) = true)
    (hframes : stack.unwinds ((openRules agenda).length + 1) = true) :
    HasRoom stack c (.part (.rule r) :: agenda) := by
  intro d h
  cases h with
  | opening hfull => exact Bool.false_ne_true (hfull.symm.trans hopen)
  | choice _ _ hreport => exact not_unreported hevent hframes hreport

/-- A step with room does not change what a run gives. -/
theorem runOn_of_step (hroom : HasRoom stack c agenda) (h : Step none c agenda d agenda') :
    c.runOn stack agenda = d.runOn stack agenda' := by
  cases h with
  | close =>
      rw [runOn, if_pos (eq_true_of_ne_false fun hfull => hroom _ (.closing hfull))]
  | continuation => rw [runOn]
  | accept hdraw =>
      have haccept := hroom.acceptWithin_eq.trans (accept_of_ok hdraw)
      rw [runOn]
      split
      · next heq =>
          rw [haccept] at heq
          cases heq
          rfl
      · next heq =>
          rw [haccept] at heq
          cases heq
  | opening _ hbody =>
      rw [runOn, if_pos (eq_true_of_ne_false fun hfull => hroom _ (.opening hfull))]
      dsimp only
      split
      · next heq =>
          rw [hbody] at heq
          cases heq
          rfl
      · next heq =>
          rw [hbody] at heq
          cases heq

/-- A halt with room gives the reason. -/
theorem runOn_of_halts {stop : Option (Stop ε)} (hroom : HasRoom stack c agenda)
    (h : Halts none c agenda stop d) : c.runOn stack agenda = (stop, d) := by
  cases h with
  | done => rw [runOn]
  | mismatch hne =>
      have haccept := hroom.acceptWithin_of_ne hne
      rw [runOn]
      split
      · next heq =>
          rw [haccept] at heq
          cases heq
      · next heq =>
          rw [haccept] at heq
          cases heq
          rfl
  | starved hdraw =>
      have haccept := hroom.acceptWithin_eq.trans (accept_of_error hdraw)
      rw [runOn]
      split
      · next heq =>
          rw [haccept] at heq
          cases heq
      · next heq =>
          rw [haccept] at heq
          cases heq
          rfl
  | @choice r alternatives agenda _ hbody =>
      have hopen : stack.room .opening (openRules agenda).length = true :=
        eq_true_of_ne_false fun hfull => hroom _ (.opening hfull)
      have hreport : ∀ d, ¬ Unreported stack
          (⟨r, c.lookahead.line⟩ :: openRules agenda : List OpenRule).length (c.emit (.opened r))
          (.choice alternatives c.lookahead.line) d :=
        fun d hreport => hroom d (.choice hopen hbody hreport)
      rw [runOn, if_pos hopen]
      dsimp only
      split
      · next heq =>
          rw [hbody] at heq
          cases heq
      · next heq =>
          rw [hbody] at heq
          cases heq
          rw [rejectWithin_of_room hreport]
          rfl
  | tooDeep hclosed => cases hclosed

/-- An overflow gives the run up. -/
theorem runOn_of_overflows (h : Overflows stack c agenda d) :
    c.runOn stack agenda = (some c.giveUp, d) := by
  -- a terminal is met in all but three of the cases, and gives what is known of it there
  have hterminal {t : Terminal} {agenda : Agenda}
      (hgiven : c.acceptWithin stack (openRules agenda) t = (.error c.giveUp, d)) :
      c.runOn stack (.part (.terminal t) :: agenda) = (some c.giveUp, d) := by
    rw [runOn]
    split
    · next heq =>
        rw [hgiven] at heq
        cases heq
    · next heq =>
        rw [hgiven] at heq
        cases heq
        rfl
  cases h with
  | closing hfull => rw [runOn, hfull, if_neg Bool.false_ne_true]
  | opening hfull => rw [runOn, hfull, if_neg Bool.false_ne_true]
  | accepting hfull =>
      refine hterminal ?_
      rw [acceptWithin, if_pos rfl, hfull, if_neg Bool.false_ne_true]
  | drawing haccept hdraw hfull => exact hterminal (acceptWithin_of_drawing haccept hdraw hfull)
  | mismatch hne hreport =>
      refine hterminal ?_
      rw [acceptWithin, if_neg hne, hreport.rejectWithin_eq]
  | @choice _ r alternatives agenda hopen hbody hreport =>
      rw [runOn, if_pos hopen]
      dsimp only
      split
      · next heq =>
          rw [hbody] at heq
          cases heq
      · next heq =>
          rw [hbody] at heq
          cases heq
          have hrejected : ((c.emit (.opened r)).rejectWithin stack
              (⟨r, c.lookahead.line⟩ :: openRules agenda)
              (.choice alternatives c.lookahead.line) : Stop ε × Cursor σ) = (c.giveUp, d) :=
            hreport.rejectWithin_eq
          rw [hrejected]

/-- Steps with room do not change what a run gives. -/
theorem runOn_of_steps (h : StepsOn stack c agenda d agenda') :
    c.runOn stack agenda = d.runOn stack agenda' := by
  induction h with
  | refl => rfl
  | step hroom hstep _ ih => exact (runOn_of_step hroom hstep).trans ih

/-- An end gives what it says. -/
theorem runOn_of_ends {stop : Option (Stop ε)} (h : EndsOn stack c agenda stop d) :
    c.runOn stack agenda = (stop, d) := by
  cases h with
  | halts hroom hhalts => exact runOn_of_halts hroom hhalts
  | overflows hover => exact runOn_of_overflows hover

/-- There is room, or there is none. -/
theorem hasRoom_or_overflows (stack : CallStack) (c : Cursor σ) (agenda : Agenda) :
    HasRoom stack c agenda ∨ ∃ d, Overflows stack c agenda d := by
  by_cases h : ∃ d, Overflows stack c agenda d
  · exact .inr h
  · exact .inl (not_exists.1 h)

/-- **Every run comes to an end.** -/
theorem exists_ends (stack : CallStack) (c : Cursor σ) (agenda : Agenda) :
    ∃ d last, StepsOn stack c agenda d last ∧
      EndsOn stack d last (c.runOn stack agenda).1 (c.runOn stack agenda).2 := by
  -- what there is room for is a step, on the way to an end, or a halt
  have hover {c d : Cursor σ} {agenda : Agenda} (h : Overflows stack c agenda d) :
      ∃ d last, StepsOn stack c agenda d last ∧
        EndsOn stack d last (c.runOn stack agenda).1 (c.runOn stack agenda).2 := by
    rw [runOn_of_overflows h]
    exact ⟨c, agenda, .refl, .overflows h⟩
  have hhalt {c d : Cursor σ} {agenda : Agenda} {stop : Option (Stop ε)}
      (hroom : HasRoom stack c agenda) (h : Halts none c agenda stop d) :
      ∃ d last, StepsOn stack c agenda d last ∧
        EndsOn stack d last (c.runOn stack agenda).1 (c.runOn stack agenda).2 := by
    rw [runOn_of_halts hroom h]
    exact ⟨c, agenda, .refl, .halts hroom h⟩
  have hstep {c c' : Cursor σ} {agenda agenda' : Agenda} (hroom : HasRoom stack c agenda)
      (hstep : Step none c agenda c' agenda')
      (h : ∃ d last, StepsOn stack c' agenda' d last ∧
        EndsOn stack d last (c'.runOn stack agenda').1 (c'.runOn stack agenda').2) :
      ∃ d last, StepsOn stack c agenda d last ∧
        EndsOn stack d last (c.runOn stack agenda).1 (c.runOn stack agenda).2 := by
    obtain ⟨d, last, hsteps, hends⟩ := h
    rw [runOn_of_step hroom hstep]
    exact ⟨d, last, .step hroom hstep hsteps, hends⟩
  induction c, agenda using @runOn.induct σ ε _ stack with
  | case1 c => exact hhalt (fun _ h => nomatch h) .done
  | case2 c o agenda hopen ih =>
      refine hstep (fun d h => ?_) .close ih
      cases h with
      | closing hfull => exact absurd hopen (by simp [hfull])
  | case3 c o agenda hfull => exact hover (.closing (eq_false_of_ne_true hfull))
  | case4 c k agenda ih => exact hstep (fun _ h => nomatch h) .continuation ih
  | case5 c t agenda token c' haccept ih =>
      obtain ⟨rfl, hdraw⟩ := accept_ok (accept_of_acceptWithin haccept)
      rcases hasRoom_or_overflows stack c (.part (.terminal c.lookahead.kind) :: agenda) with
        hroom | ⟨d, hfull⟩
      · rw [hroom.acceptWithin_eq, accept_of_ok hdraw] at haccept
        have hc' := (Prod.mk.inj haccept).2
        exact hstep hroom (hc' ▸ .accept hdraw) ih
      · exact hover hfull
  | case6 c t agenda stop c' haccept =>
      rcases hasRoom_or_overflows stack c (.part (.terminal t) :: agenda) with
        hroom | ⟨d, hfull⟩
      · by_cases hkind : c.lookahead.kind = t
        · subst hkind
          rw [hroom.acceptWithin_eq] at haccept
          cases hdraw : Feed.draw c.feed with
          | mk drawn feed =>
              cases drawn with
              | ok next =>
                  rw [accept_of_ok hdraw] at haccept
                  cases haccept
              | error e => exact hhalt hroom (.starved hdraw)
        · exact hhalt hroom (.mismatch hkind)
      · exact hover hfull
  | case7 c r agenda hopen opened body hbody ih =>
      exact hstep (hasRoom_of_body hopen hbody) (.opening (mayOpen_none _) hbody) ih
  | case8 c r agenda hopen opened alternatives hbody stop c' hreject =>
      rcases hasRoom_or_overflows stack c (.part (.rule r) :: agenda) with hroom | ⟨d, hfull⟩
      · exact hhalt hroom (.choice (mayOpen_none _) hbody)
      · exact hover hfull
  | case9 c r agenda hfull => exact hover (.opening (eq_false_of_ne_true hfull))

/-- **A run is steps with room, up to an end.** -/
theorem runOn_eq_iff {stop : Option (Stop ε)} : c.runOn stack agenda = (stop, d) ↔
    ∃ c' agenda', StepsOn stack c agenda c' agenda' ∧ EndsOn stack c' agenda' stop d := by
  constructor
  · intro h
    have hends := exists_ends stack c agenda
    rw [h] at hends
    exact hends
  · rintro ⟨c', agenda', hsteps, hends⟩
    exact (runOn_of_steps hsteps).trans (runOn_of_ends hends)

theorem StepsOn.steps (h : StepsOn stack c agenda d agenda') : Steps none c agenda d agenda' := by
  induction h with
  | refl => exact .refl
  | step _ hstep _ ih => exact .step hstep ih

theorem StepsOn.trans {middle : Cursor σ} {first second third : Agenda}
    (h : StepsOn stack c first middle second) (h' : StepsOn stack middle second d third) :
    StepsOn stack c first d third := by
  induction h with
  | refl => exact h'
  | step hroom hstep _ ih => exact .step hroom hstep (ih h')

/-! ### Runs under a limit -/

section Limited

variable {limit : Option Nat}

/-- What a limit leaves no room for is one rule more. -/
theorem Overflows.of_limited (h : Overflows (.limited limit) c agenda d) :
    d = c ∧ ∃ r rest, agenda = .part (.rule r) :: rest ∧
      mayOpen limit (openRules rest).length = false := by
  have hroom {call : Call} {count : Nat} (hcall : call ≠ .opening)
      (hfull : (CallStack.limited limit).room call count = false) : False := by
    rw [CallStack.room_limited hcall] at hfull
    cases hfull
  have hreported {count : Nat} {c d : Cursor σ} {expected : Expectation}
      (h : Unreported (.limited limit) count c expected d) : False := by
    cases h with
    | event hfull => exact hroom (by decide) hfull
    | frames _ hfull =>
        rw [CallStack.unwinds_limited] at hfull
        cases hfull
  cases h with
  | closing hfull => exact (hroom (by decide) hfull).elim
  | opening hfull => exact ⟨rfl, _, _, rfl, hfull⟩
  | accepting hfull => exact (hroom (by decide) hfull).elim
  | drawing _ _ hfull => exact (hroom (Call.ofDraw_ne_opening _) hfull).elim
  | mismatch _ hreport => exact (hreported hreport).elim
  | choice _ _ hreport => exact (hreported hreport).elim

/-- There is room under a limit but for one rule more. -/
theorem hasRoom_limited (h : ∀ r rest, agenda = .part (.rule r) :: rest →
    mayOpen limit (openRules rest).length = true) : HasRoom (.limited limit) c agenda := by
  intro d hfull
  obtain ⟨-, r, rest, rfl, hclosed⟩ := hfull.of_limited
  exact Bool.false_ne_true (hclosed.symm.trans (h r rest rfl))

/-- Steps under a limit are steps with room. -/
theorem step_limited_iff : Step limit c agenda d agenda' ↔
    HasRoom (.limited limit) c agenda ∧ Step none c agenda d agenda' := by
  constructor
  · intro h
    refine ⟨hasRoom_limited ?_, h.widen (.unlimited limit)⟩
    rintro r rest rfl
    cases h with
    | opening hopen => exact hopen
  · rintro ⟨hroom, h⟩
    cases h with
    | close => exact .close
    | continuation => exact .continuation
    | accept hdraw => exact .accept hdraw
    | opening _ hbody =>
        exact .opening (eq_true_of_ne_false fun hfull => hroom _ (.opening hfull)) hbody

/-- So are any number of them. -/
theorem steps_limited_iff : Steps limit c agenda d agenda' ↔
    StepsOn (.limited limit) c agenda d agenda' := by
  constructor
  · intro h
    induction h with
    | refl => exact .refl
    | step hstep _ ih =>
        obtain ⟨hroom, hstep⟩ := step_limited_iff.1 hstep
        exact .step hroom hstep ih
  · intro h
    induction h with
    | refl => exact .refl
    | step hroom hstep _ ih => exact .step (step_limited_iff.2 ⟨hroom, hstep⟩) ih

/-- Halts under a limit are ends of runs. -/
theorem halts_limited_iff {stop : Option (Stop ε)} : Halts limit c agenda stop d ↔
    EndsOn (.limited limit) c agenda stop d := by
  constructor
  · intro h
    cases h with
    | done => exact .halts (hasRoom_limited nofun) .done
    | mismatch hne => exact .halts (hasRoom_limited nofun) (.mismatch hne)
    | starved hdraw => exact .halts (hasRoom_limited nofun) (.starved hdraw)
    | choice hopen hbody =>
        refine .halts (hasRoom_limited ?_) (.choice (mayOpen_none _) hbody)
        rintro r rest ⟨⟩
        exact hopen
    | tooDeep hclosed => exact .overflows (.opening hclosed)
  · intro h
    cases h with
    | halts hroom h =>
        cases h with
        | done => exact .done
        | mismatch hne => exact .mismatch hne
        | starved hdraw => exact .starved hdraw
        | choice _ hbody =>
            exact .choice (eq_true_of_ne_false fun hfull => hroom _ (.opening hfull)) hbody
        | tooDeep hclosed => cases hclosed
    | overflows hfull =>
        obtain ⟨rfl, r, rest, rfl, hclosed⟩ := hfull.of_limited
        exact .tooDeep hclosed

/-- **A run under a limit is steps up to a halt.** -/
theorem run_eq_iff {stop : Option (Stop ε)} : c.run limit agenda = (stop, d) ↔
    ∃ c' agenda', Steps limit c agenda c' agenda' ∧ Halts limit c' agenda' stop d := by
  simp only [run, runOn_eq_iff, steps_limited_iff, halts_limited_iff]

/-- Steps do not change what a run gives. -/
theorem run_of_steps (h : Steps limit c agenda d agenda') :
    c.run limit agenda = d.run limit agenda' :=
  runOn_of_steps (steps_limited_iff.1 h)

/-- Neither does one of them. -/
theorem run_of_step (h : Step limit c agenda d agenda') :
    c.run limit agenda = d.run limit agenda' :=
  run_of_steps (.step h .refl)

/-- A run that halts at once gives the reason. -/
theorem run_of_halts {stop : Option (Stop ε)} (h : Halts limit c agenda stop d) :
    c.run limit agenda = (stop, d) :=
  runOn_of_ends (halts_limited_iff.1 h)

/-- Every run under a limit comes to a halt. -/
theorem exists_halts (limit : Option Nat) (c : Cursor σ) (agenda : Agenda) :
    ∃ c' agenda', Steps limit c agenda c' agenda' ∧
      Halts limit c' agenda' (c.run limit agenda).1 (c.run limit agenda).2 :=
  run_eq_iff.1 rfl

/-- **A wider limit changes nothing** where the limit was not hit. -/
theorem run_widen {wider : Option Nat} (hwider : Wider limit wider) {stop : Option (Stop ε)}
    (h : c.run limit agenda = (stop, d)) (hstop : ∀ e, stop ≠ some (.tooDeep e)) :
    c.run wider agenda = (stop, d) := by
  obtain ⟨c', agenda', hsteps, hhalts⟩ := run_eq_iff.1 h
  exact run_eq_iff.2 ⟨c', agenda', hsteps.widen hwider, hhalts.widen hwider hstop⟩

/-- **A limit changes nothing but that it may be hit**: any other result is the result without a
limit. -/
theorem run_unlimited {stop : Option (Stop ε)} (h : c.run limit agenda = (stop, d))
    (hstop : ∀ e, stop ≠ some (.tooDeep e)) : c.run none agenda = (stop, d) :=
  run_widen (.unlimited limit) h hstop

/-- A parse under a limit is a run under it. -/
theorem parse_eq (limit : Option Nat) (c : Cursor σ) (start : Rule) :
    c.parse limit start =
      match c.run limit [.part (.rule start), .part (.terminal .eof)] with
      | (none, d) => (none, d.emit .succeeded)
      | (some stop, d) => (some stop, d) := rfl

end Limited

end Cursor

end SccSharp
