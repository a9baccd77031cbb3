import SccSharp.Reader
import SccSharp.Proofs.Outcome

/-!
# Accounts of a session

An analyser may be asked for anything at any time: for its lookahead, for a terminal, for a rule in
the middle of the input, for a whole check, and again after an error or a failure of its source.
Whatever it is asked for, its books are right.

* **No token is skipped, repeated or dropped.** The tokens drawn are those that have been accepted,
  in order, and then the lookahead.
* **Every token is on record once**, and once more for each time that the draw after it has failed:
  the event of a token is emitted before the next one is drawn.
* **Success is recorded once at most**, by the check that succeeds.

The books are kept by a single acceptance, hence by a step of a run and by the halt of it, hence by
every request (`Accounted`).

## Main Definitions

* `Request`, `Reply`, `Turn`, `Analyser.session` — what is asked, and what comes back
* `Cursor.Tries`, `Analyser.Tries`, `Analyser.TriesAll` — the acceptances tried by a run, for a
  request and in a session
* `Analyser.Accounted` — books that are right
* `Analyser.Guarded` — requests that are turned down

## Main Statements

* `Cursor.exists_tries`, `Analyser.exists_triesAll` — every run and every session tries some
* `Analyser.Accounted.exists_of_tries` — a run keeps the books
* `Analyser.Accounted.exists_of_perform` — a request keeps the books
* `session_accounts` — the books of a session
-/

namespace SccSharp

/-! ### Acceptances on the way -/

/-- The tokens of the acceptances that gave one. -/
def returned {ε : Type} (calls : List (Except (Stop ε) Token)) : List Token :=
  calls.filterMap Except.toOption

@[simp] theorem returned_concat_ok {ε : Type} (calls : List (Except (Stop ε) Token)) (t : Token) :
    returned (calls ++ [.ok t]) = returned calls ++ [t] := List.filterMap_append

@[simp] theorem returned_concat_error {ε : Type} (calls : List (Except (Stop ε) Token))
    (stop : Stop ε) : returned (calls ++ [.error stop]) = returned calls :=
  List.filterMap_append.trans (List.append_nil _)

/-- Whether an acceptance failed because the source did. -/
def isStarved {ε : Type} : Except (Stop ε) Token → Bool
  | .error (.sourceFailed _) => true
  | _ => false

namespace Cursor

variable {σ ε : Type} [Feed σ ε]

/-- **The acceptance in front of an agenda**, with what it gives. -/
def attempt (c : Cursor σ) : Agenda → Option (Except (Stop ε) Token)
  | .part (.terminal t) :: _ => some (c.accept t).1
  | _ => none

section Attempt

variable {c : Cursor σ} {agenda : Agenda}

@[simp] theorem attempt_nil : c.attempt [] = none := rfl

@[simp] theorem attempt_close {o : OpenRule} : c.attempt (.close o :: agenda) = none := rfl

@[simp] theorem attempt_continuation {k : Continuation} :
    c.attempt (.part (.continuation k) :: agenda) = none := rfl

@[simp] theorem attempt_rule {r : Rule} : c.attempt (.part (.rule r) :: agenda) = none := rfl

@[simp] theorem attempt_terminal {t : Terminal} :
    c.attempt (.part (.terminal t) :: agenda) = some (c.accept t).1 := rfl

end Attempt

/-- **The acceptances tried by a run**, in order: whatever is in front of the agenda at one of its
steps, and at its halt. -/
inductive Tries (limit : Option Nat) :
    Cursor σ → Agenda → List (Except (Stop ε) Token) → Prop where
  | halts {c d : Cursor σ} {agenda : Agenda} {stop : Option (Stop ε)} :
      Halts limit c agenda stop d → Tries limit c agenda (c.attempt agenda).toList
  | step {c c' : Cursor σ} {agenda agenda' : Agenda} {calls : List (Except (Stop ε) Token)} :
      Step limit c agenda c' agenda' → Tries limit c' agenda' calls →
        Tries limit c agenda ((c.attempt agenda).toList ++ calls)

/-- Every run tries some, since it comes to a halt. -/
theorem exists_tries (limit : Option Nat) (c : Cursor σ) (agenda : Agenda) :
    ∃ calls, Tries limit c agenda calls := by
  obtain ⟨c', agenda', hsteps, hhalts⟩ := exists_halts limit c agenda
  induction hsteps with
  | refl => exact ⟨_, .halts hhalts⟩
  | step hstep _ ih =>
      obtain ⟨calls, hcalls⟩ := ih (run_of_step hstep ▸ hhalts)
      exact ⟨_, .step hstep hcalls⟩

end Cursor

/-! ### Sessions -/

/-- **What an analyser may be asked for.** -/
inductive Request where
  | lookahead
  | accept (t : Terminal)
  /-- Rejecting a token on behalf of the caller. -/
  | report (found : Token) (expected : Expectation)
  | derive (r : Rule)
  | parse (r : Rule)
  | analyse (r : Rule)
  deriving DecidableEq, Repr

/-- What comes back: a token, nothing, or a verdict; or the reason why it does not. -/
inductive Reply (ε : Type) where
  | token (result : Except (Stop ε) Token)
  | done (stop? : Option (Stop ε))
  | verdict (result : Except (Stop ε) Verdict)

/-- The rule that a whole check starts with, if a request asks for one. -/
def Request.start? : Request → Option Rule
  | parse r | analyse r => some r
  | _ => none

/-- **One turn of a session**: a request and its reply. -/
structure Turn (ε : Type) where
  request : Request
  reply : Reply ε

/-- Whether a turn is a check of a whole input that found no error. -/
def Turn.succeeded {ε : Type} (turn : Turn ε) : Bool :=
  match turn.request, turn.reply with
  | .parse _, .done none => true
  | .analyse _, .verdict (.ok verdict) => verdict.succeeded
  | _, _ => false

/-- The tokens that draws gave, in order. -/
def Metered.drawn {σ ε : Type} (m : Metered σ ε) : List Token :=
  m.draws.toList.filterMap Except.toOption

namespace Analyser

variable {σ ε : Type}

/-- An analyser with one more event. -/
def trace (a : Analyser σ) (e : Event) : Analyser σ :=
  match a with
  | fresh feed sink => fresh feed (sink.emit e)
  | started cursor => started (cursor.emit e)

@[simp] theorem sink_trace (a : Analyser σ) (e : Event) : (a.trace e).sink = a.sink.emit e := by
  cases a <;> rfl

@[simp] theorem feed_trace (a : Analyser σ) (e : Event) : (a.trace e).feed = a.feed := by
  cases a <;> rfl

@[simp] theorem consumed_trace (a : Analyser σ) (e : Event) :
    (a.trace e).consumed = a.consumed := by
  cases a <;> rfl

@[simp] theorem lookahead?_trace (a : Analyser σ) (e : Event) :
    (a.trace e).lookahead? = a.lookahead? := by
  cases a <;> rfl

/-- A report is an event and an error. -/
theorem report_eq (a : Analyser σ) (found : Token) (expected : Expectation) :
    a.report found expected =
      ((.syntaxError (.raised expected found) : Stop ε),
        a.trace (.rejected found expected)) := by
  cases a <;> rfl

variable [Feed σ ε]

/-- **Answers a request.** -/
def perform (limit : Option Nat) (a : Analyser σ) : Request → Reply ε × Analyser σ
  | .lookahead => (.token (a.lookahead?.elim (.error (.misused .notStarted)) .ok), a)
  | .accept t => (a.accept t).map .token id
  | .report found expected => (a.report found expected).map (.done ∘ some) id
  | .derive r => (a.derive limit r).map .done id
  | .parse r => (a.parse limit r).map .done id
  | .analyse r => (a.analyse limit r).map .verdict id

/-- **The acceptances tried for a request**: a requested one, and those of the run that it makes. -/
inductive Tries (limit : Option Nat) :
    Analyser σ → Request → List (Except (Stop ε) Token) → Prop where
  | lookahead {a : Analyser σ} : Tries limit a .lookahead []
  | accept {a : Analyser σ} {t : Terminal} : Tries limit a (.accept t) [(a.accept t).1]
  | report {a : Analyser σ} {found : Token} {expected : Expectation} :
      Tries limit a (.report found expected) []
  /-- There is no lookahead yet. -/
  | early {feed : σ} {sink : Sink} {r : Rule} : Tries limit (fresh feed sink) (.derive r) []
  | derive {c : Cursor σ} {r : Rule} {calls : List (Except (Stop ε) Token)} :
      c.Tries limit [.part (.rule r)] calls → Tries limit (started c) (.derive r) calls
  /-- There is one already. -/
  | late {c : Cursor σ} {request : Request} {r : Rule} :
      request.start? = some r → Tries limit (started c) request []
  | unstarted {feed rest : σ} {sink : Sink} {request : Request} {r : Rule} {e : ε} :
      request.start? = some r → Feed.draw feed = (.error e, rest) →
        Tries limit (fresh feed sink) request []
  | check {feed rest : σ} {sink : Sink} {request : Request} {r : Rule} {t : Token}
      {calls : List (Except (Stop ε) Token)} :
      request.start? = some r → Feed.draw feed = (.ok t, rest) →
        (Cursor.first rest t sink).Tries limit [.part (.rule r), .part (.terminal .eof)] calls →
          Tries limit (fresh feed sink) request calls

/-- **The acceptances tried in a session.** -/
inductive TriesAll (limit : Option Nat) :
    Analyser σ → List Request → List (Except (Stop ε) Token) → Prop where
  | nil {a : Analyser σ} : TriesAll limit a [] []
  | cons {a : Analyser σ} {request : Request} {more : List Request}
      {first later : List (Except (Stop ε) Token)} :
      Tries limit a request first → TriesAll limit (a.perform limit request).2 more later →
        TriesAll limit a (request :: more) (first ++ later)

/-- Every request makes an analyser try some, if only none. -/
theorem exists_tries (limit : Option Nat) (a : Analyser σ) (request : Request) :
    ∃ calls, a.Tries limit request calls := by
  -- a check that is asked for either starts or does not
  have hcheck {r : Rule} (hstart : request.start? = some r) :
      ∃ calls, a.Tries limit request calls := by
    cases a with
    | started c => exact ⟨[], .late hstart⟩
    | fresh feed sink =>
        cases hdraw : Feed.draw feed with
        | mk outcome rest =>
            cases outcome with
            | error e => exact ⟨[], .unstarted hstart hdraw⟩
            | ok t =>
                obtain ⟨calls, hcalls⟩ := (Cursor.first rest t sink).exists_tries limit
                  [.part (.rule r), .part (.terminal .eof)]
                exact ⟨calls, .check hstart hdraw hcalls⟩
  cases request with
  | lookahead => exact ⟨[], .lookahead⟩
  | accept t => exact ⟨_, .accept⟩
  | report found expected => exact ⟨[], .report⟩
  | derive r =>
      cases a with
      | fresh feed sink => exact ⟨[], .early⟩
      | started c =>
          obtain ⟨calls, hcalls⟩ := c.exists_tries limit [.part (.rule r)]
          exact ⟨calls, .derive hcalls⟩
  | parse r => exact hcheck rfl
  | analyse r => exact hcheck rfl

/-- So does every session. -/
theorem exists_triesAll (limit : Option Nat) (a : Analyser σ) (requests : List Request) :
    ∃ calls, a.TriesAll limit requests calls := by
  induction requests generalizing a with
  | nil => exact ⟨[], .nil⟩
  | cons request more ih =>
      obtain ⟨first, hfirst⟩ := a.exists_tries limit request
      obtain ⟨later, hlater⟩ := ih (a.perform limit request).2
      exact ⟨first ++ later, .cons hfirst hlater⟩

/-- The turn that a request is answered by. -/
def turn (limit : Option Nat) (a : Analyser σ) (request : Request) : Turn ε :=
  ⟨request, (a.perform limit request).1⟩

/-- **A session**: requests one after the other, whatever each of them gives. -/
def session (limit : Option Nat) (a : Analyser σ) : List Request → List (Turn ε) × Analyser σ
  | [] => ([], a)
  | request :: more =>
      let rest := (a.perform limit request).2.session limit more
      (a.turn limit request :: rest.1, rest.2)

/-- A parse succeeds if nothing stops it. -/
theorem succeeded_parse (limit : Option Nat) (a : Analyser σ) (r : Rule) :
    (a.turn limit (.parse r)).succeeded = (a.parse limit r).1.isNone := by
  rw [turn, perform, Prod.map_fst]
  cases (a.parse limit r).1 <;> rfl

/-- An analysis succeeds if its parse does. -/
theorem succeeded_analyse (limit : Option Nat) (a : Analyser σ) (r : Rule) :
    (a.turn limit (.analyse r)).succeeded = (a.parse limit r).1.isNone := by
  rw [turn, perform, Prod.map_fst, analyse, analyseOn, parse]
  obtain ⟨_ | stop, a'⟩ := a.parseOn (.limited limit) r
  · rfl
  · cases stop <;> rfl

/-- And it leaves what its parse leaves. -/
theorem analyse_snd (limit : Option Nat) (a : Analyser σ) (r : Rule) :
    (a.analyse limit r).2 = (a.parse limit r).2 := by
  rw [analyse, analyseOn, parse]
  obtain ⟨_ | stop, a'⟩ := a.parseOn (.limited limit) r
  · rfl
  · cases stop <;> rfl

/-! ### Books -/

/-- **Books that are right**, after some events, acceptances tried and checks that succeeded.

* The tokens drawn are those accepted and then the lookahead.
* The number of tokens on record is that of the tokens accepted, and one more for each acceptance
  that the source has let down.
* Success is on record for each check that succeeded, and there is at most one. -/
structure Accounted (a : Analyser (Metered σ ε)) (events : List Event)
    (calls : List (Except (Stop ε) Token)) (successes : Nat) : Prop where
  recorded : a.sink = .record events.toArray
  drawn : a.feed.drawn = returned calls ++ a.lookahead?.toList
  consumed : a.consumed = (returned calls).length
  accepted : (acceptedTokens events).length = a.consumed + calls.countP isStarved
  succeeded : events.count .succeeded = successes
  once : successes ≤ a.lookahead?.toList.length

end Analyser

section

variable {σ ε : Type} [Feed σ ε]

/-- A draw adds the token that it gives. -/
theorem Metered.drawn_of_draw {m m' : Metered σ ε} {outcome : Except ε Token}
    (h : Feed.draw m = (outcome, m')) : m'.drawn = m.drawn ++ outcome.toOption.toList := by
  cases h
  simp only [drawn, Array.toList_push, List.filterMap_append]
  congr 1

end

namespace Analyser.Accounted

variable {σ ε : Type} {a : Analyser (Metered σ ε)} {c d : Cursor (Metered σ ε)}
variable {events : List Event} {calls : List (Except (Stop ε) Token)} {successes : Nat}

/-- Nothing is drawn or accepted before there is a lookahead. -/
theorem unstarted (h : a.Accounted events calls successes) (hnone : a.lookahead? = none) :
    a.consumed = 0 ∧ returned calls = [] ∧ a.feed.drawn = [] := by
  have hconsumed : a.consumed = 0 := by
    cases a with
    | fresh => rfl
    | started => cases hnone
  have hreturned : returned calls = [] :=
    List.length_eq_zero_iff.1 (h.consumed.symm.trans hconsumed)
  refine ⟨hconsumed, hreturned, ?_⟩
  rw [h.drawn, hreturned, hnone]
  rfl

/-- An event that is neither of a token nor of success leaves the books as they are. -/
theorem trace (h : a.Accounted events calls successes) (e : Event) (haccepted : e.accepted? = none)
    (hsucceeded : e ≠ .succeeded) : (a.trace e).Accounted (events ++ [e]) calls successes where
  recorded := by rw [sink_trace, h.recorded, Sink.emit_record_toArray]
  drawn := by rw [feed_trace, lookahead?_trace, h.drawn]
  consumed := by rw [consumed_trace, h.consumed]
  accepted := by rw [acceptedTokens_concat haccepted, consumed_trace, h.accepted]
  succeeded := by
    rw [List.count_append, h.succeeded, List.count_singleton, if_neg (by simpa using hsucceeded)]
    rfl
  once := by
    rw [lookahead?_trace]
    exact h.once

/-- So does an acceptance that gives no token and does not ask for one. -/
theorem refused (h : a.Accounted events calls successes) (stop : Stop ε)
    (hstop : isStarved (.error stop) = false) :
    a.Accounted events (calls ++ [.error stop]) successes := by
  refine ⟨h.recorded, ?_, ?_, ?_, h.succeeded, h.once⟩
  · rw [returned_concat_error, h.drawn]
  · rw [returned_concat_error, h.consumed]
  · rw [List.countP_append, List.countP_singleton, hstop, h.accepted]
    rfl

variable [Feed σ ε]

/-- **An acceptance keeps the books.** -/
theorem exists_of_accept (h : (started c).Accounted events calls successes) (t : Terminal) :
    ∃ events', (started (c.accept t).2).Accounted events' (calls ++ [(c.accept t).1])
      successes := by
  by_cases hkind : c.lookahead.kind = t
  · subst hkind
    have hemitted : c.sink.emit (Event.accepted c.lookahead) =
        .record (events ++ [Event.accepted c.lookahead]).toArray := by
      rw [show c.sink = _ from h.recorded, Sink.emit_record_toArray]
    have haccepted := h.accepted
    have hsucceeded : (events ++ [Event.accepted c.lookahead]).count Event.succeeded =
        successes := by
      rw [List.count_append, h.succeeded]
      rfl
    refine ⟨events ++ [Event.accepted c.lookahead], ?_⟩
    cases hdraw : Feed.draw c.feed with
    | mk outcome feed =>
        have hdrawn := Metered.drawn_of_draw hdraw
        rw [show c.feed.drawn = _ from h.drawn] at hdrawn
        cases outcome with
        | ok next =>
            rw [Cursor.accept_of_ok hdraw]
            refine ⟨hemitted, ?_, ?_, ?_, hsucceeded, h.once⟩
            · rw [returned_concat_ok]
              exact hdrawn
            · rw [returned_concat_ok, List.length_append, ← h.consumed]
              rfl
            · rw [acceptedTokens_append, List.length_append, haccepted, List.countP_append]
              exact Nat.add_right_comm _ _ _
        | error e =>
            rw [Cursor.accept_of_error hdraw]
            refine ⟨hemitted, ?_, ?_, ?_, hsucceeded, h.once⟩
            · rw [returned_concat_error]
              exact hdrawn.trans (List.append_nil _)
            · rw [returned_concat_error]
              exact h.consumed
            · rw [acceptedTokens_append, List.length_append, haccepted, List.countP_append]
              exact Nat.add_assoc _ _ _
  · rw [Cursor.accept_of_ne hkind]
    exact ⟨_, (h.trace (.rejected ..) rfl nofun).refused (.syntaxError _) rfl⟩

variable {limit : Option Nat} {agenda agenda' : Agenda}

/-- **A step keeps the books.** -/
theorem exists_of_step (h : (started c).Accounted events calls successes)
    (hstep : Cursor.Step limit c agenda d agenda') :
    ∃ events', (started d).Accounted events' (calls ++ (c.attempt agenda).toList) successes := by
  cases hstep with
  | close =>
      rw [Cursor.attempt_close, Option.toList_none, List.append_nil]
      exact ⟨_, h.trace (.closed _) rfl nofun⟩
  | continuation =>
      rw [Cursor.attempt_continuation, Option.toList_none, List.append_nil]
      exact ⟨events, h⟩
  | accept hdraw =>
      obtain ⟨events', h'⟩ := h.exists_of_accept c.lookahead.kind
      rw [Cursor.accept_of_ok hdraw] at h'
      rw [Cursor.attempt_terminal, Cursor.accept_of_ok hdraw]
      exact ⟨events', h'⟩
  | opening =>
      rw [Cursor.attempt_rule, Option.toList_none, List.append_nil]
      exact ⟨_, h.trace (.opened _) rfl nofun⟩

/-- **A halt keeps the books.** -/
theorem exists_of_halts (h : (started c).Accounted events calls successes)
    {stop : Option (Stop ε)} (hhalts : Cursor.Halts limit c agenda stop d) :
    ∃ events', (started d).Accounted events' (calls ++ (c.attempt agenda).toList) successes := by
  cases hhalts with
  | done =>
      rw [Cursor.attempt_nil, Option.toList_none, List.append_nil]
      exact ⟨events, h⟩
  | @mismatch t _ hne =>
      obtain ⟨events', h'⟩ := h.exists_of_accept t
      rw [Cursor.accept_of_ne hne] at h'
      rw [Cursor.attempt_terminal, Cursor.accept_of_ne hne]
      exact ⟨events', h'⟩
  | starved hdraw =>
      obtain ⟨events', h'⟩ := h.exists_of_accept c.lookahead.kind
      rw [Cursor.accept_of_error hdraw] at h'
      rw [Cursor.attempt_terminal, Cursor.accept_of_error hdraw]
      exact ⟨events', h'⟩
  | choice =>
      rw [Cursor.attempt_rule, Option.toList_none, List.append_nil]
      exact ⟨_, (h.trace (.opened _) rfl nofun).trace (.rejected ..) rfl nofun⟩
  | tooDeep =>
      rw [Cursor.attempt_rule, Option.toList_none, List.append_nil]
      exact ⟨events, h⟩

/-- **A run keeps the books**, with the acceptances that it tries. -/
theorem exists_of_tries (h : (started c).Accounted events calls successes)
    {tried : List (Except (Stop ε) Token)} (htries : Cursor.Tries limit c agenda tried) :
    ∃ events', (started (c.run limit agenda).2).Accounted events' (calls ++ tried) successes := by
  induction htries generalizing events calls with
  | halts hhalts =>
      rw [Cursor.run_of_halts hhalts]
      exact h.exists_of_halts hhalts
  | step hstep _ ih =>
      obtain ⟨_, hnext⟩ := h.exists_of_step hstep
      rw [Cursor.run_of_step hstep, ← List.append_assoc]
      exact ih hnext

/-! ### Requests -/

/-- The first token opens the books, and no check has succeeded before it. -/
theorem first {feed rest : Metered σ ε} {sink : Sink} {t : Token}
    (h : (fresh feed sink).Accounted events calls successes)
    (hdraw : Feed.draw feed = (.ok t, rest)) :
    (started (.first rest t sink)).Accounted events calls successes ∧ successes = 0 := by
  have hnone : successes = 0 := Nat.le_zero.1 h.once
  have hdrawn := Metered.drawn_of_draw hdraw
  rw [show feed.drawn = _ from h.drawn] at hdrawn
  refine ⟨⟨h.recorded, ?_, h.consumed, h.accepted, h.succeeded, ?_⟩, hnone⟩
  · exact hdrawn.trans (by simp [lookahead?, Except.toOption, Cursor.first])
  · rw [hnone]
    exact Nat.zero_le _

/-- A first draw that fails changes nothing in the books. -/
theorem retried {feed rest : Metered σ ε} {sink : Sink} {e : ε}
    (h : (fresh feed sink).Accounted events calls successes)
    (hdraw : Feed.draw feed = (.error e, rest)) :
    (fresh rest sink).Accounted events calls successes := by
  have hdrawn := Metered.drawn_of_draw hdraw
  rw [show feed.drawn = _ from h.drawn] at hdrawn
  refine ⟨h.recorded, ?_, h.consumed, h.accepted, h.succeeded, h.once⟩
  exact hdrawn.trans (List.append_nil _)

omit [Feed σ ε] in
/-- The first success is put on record. -/
theorem success (h : (started c).Accounted events calls 0) :
    (started (c.emit .succeeded)).Accounted (events ++ [.succeeded]) calls 1 where
  recorded := by
    show c.sink.emit _ = _
    rw [show c.sink = _ from h.recorded, Sink.emit_record_toArray]
  drawn := h.drawn
  consumed := h.consumed
  accepted := by
    rw [acceptedTokens_concat rfl, h.accepted]
    rfl
  succeeded := by
    rw [List.count_append, h.succeeded]
    rfl
  once := Nat.le_refl _

/-- **A check of a whole input keeps the books.** -/
theorem exists_of_check (h : a.Accounted events calls successes) {request : Request} {r : Rule}
    (hstart : request.start? = some r) {tried : List (Except (Stop ε) Token)}
    (htries : a.Tries limit request tried) :
    ∃ events', (a.parse limit r).2.Accounted events' (calls ++ tried)
      (successes + if (a.parse limit r).1.isNone then 1 else 0) := by
  cases htries with
  | lookahead | accept | report | early | derive => cases hstart
  | late =>
      rw [List.append_nil]
      exact ⟨events, h⟩
  | unstarted _ hdraw =>
      rw [parse_of_draw_error r hdraw, List.append_nil]
      exact ⟨events, h.retried hdraw⟩
  | @check _ rest sink _ _ t _ hstart' hdraw hruns =>
      obtain rfl := Option.some.inj (hstart.symm.trans hstart')
      obtain ⟨hfirst, rfl⟩ := h.first hdraw
      obtain ⟨events', h'⟩ := hfirst.exists_of_tries hruns
      cases hrun : (Cursor.first rest t sink).run limit
          [.part (.rule r), .part (.terminal .eof)] with
      | mk stop d =>
          rw [hrun] at h'
          rw [parse_of_run hdraw hrun]
          cases stop with
          | none => exact ⟨_, h'.success⟩
          | some stop => exact ⟨events', h'⟩

/-- **A request keeps the books.** -/
theorem exists_of_perform (h : a.Accounted events calls successes) {request : Request}
    {tried : List (Except (Stop ε) Token)} (htries : a.Tries limit request tried) :
    ∃ events', (a.perform limit request).2.Accounted events' (calls ++ tried)
      (successes + if (a.turn limit request).succeeded then 1 else 0) := by
  cases request with
  | lookahead =>
      cases htries with
      | late hstart | unstarted hstart | check hstart => cases hstart
      | lookahead =>
          rw [List.append_nil]
          exact ⟨events, h⟩
  | accept t =>
      cases htries with
      | late hstart | unstarted hstart | check hstart => cases hstart
      | accept =>
          cases a with
          | fresh feed sink => exact ⟨events, h.refused (.misused .notStarted) rfl⟩
          | started c => exact h.exists_of_accept t
  | report found expected =>
      cases htries with
      | late hstart | unstarted hstart | check hstart => cases hstart
      | report =>
          rw [List.append_nil, perform, report_eq]
          exact ⟨_, h.trace (.rejected found expected) rfl nofun⟩
  | derive r =>
      cases htries with
      | late hstart | unstarted hstart | check hstart => cases hstart
      | early =>
          rw [List.append_nil]
          exact ⟨events, h⟩
      | derive hruns => exact h.exists_of_tries hruns
  | parse r =>
      rw [succeeded_parse]
      exact h.exists_of_check rfl htries
  | analyse r =>
      rw [succeeded_analyse, perform, Prod.map_snd, analyse_snd]
      exact h.exists_of_check rfl htries

/-- **A session keeps the books.** -/
theorem exists_of_triesAll (h : a.Accounted events calls successes) {requests : List Request}
    {tried : List (Except (Stop ε) Token)} (htries : a.TriesAll limit requests tried) :
    ∃ events', (a.session limit requests).2.Accounted events' (calls ++ tried)
      (successes + (a.session limit requests).1.countP Turn.succeeded) := by
  induction htries generalizing events calls successes with
  | nil =>
      rw [session, List.append_nil]
      exact ⟨events, h⟩
  | cons hfirst _ ih =>
      obtain ⟨_, hnext⟩ := h.exists_of_perform hfirst
      obtain ⟨events', h'⟩ := ih hnext
      refine ⟨events', ?_⟩
      rw [session, List.countP_cons, ← List.append_assoc, Nat.add_comm (List.countP _ _),
        ← Nat.add_assoc]
      exact h'

end Analyser.Accounted

/-! ### What is turned down -/

namespace Analyser

variable {σ ε : Type} [Feed σ ε]

/-- **Requests that are turned down** by an analyser, and what they leave.

* Another terminal than the lookahead is rejected: that is an event, and nothing else changes.
* A whole check is asked for too late, once there is a lookahead. Nothing changes.
* A lookahead, a terminal or a rule is asked for too early, before there is one. Nothing changes.
* A check whose first draw fails leaves an analyser that has not started, on what is left of the
  source. -/
structure Guarded (limit : Option Nat) (a : Analyser σ) : Prop where
  mismatch : ∀ (t : Terminal) (found : Token), a.lookahead? = some found → found.kind ≠ t →
    a.perform limit (.accept t) =
      (.token (.error (.syntaxError (.raised (.terminal t found.line) found))),
        a.trace (.rejected found (.terminal t found.line)))
  late : ∀ (r : Rule) (found : Token), a.lookahead? = some found →
    a.perform limit (.parse r) = (.done (some (.misused .alreadyStarted)), a) ∧
      a.perform limit (.analyse r) = (.verdict (.error (.misused .alreadyStarted)), a)
  early : a.lookahead? = none →
    a.perform limit .lookahead = (.token (.error (.misused .notStarted)), a) ∧
      (∀ t, a.perform limit (.accept t) = (.token (.error (.misused .notStarted)), a)) ∧
      ∀ r, a.perform limit (.derive r) = (.done (some (.misused .notStarted)), a)
  unstarted : ∀ (r : Rule) (e : ε) (rest : σ), a.lookahead? = none →
    Feed.draw a.feed = (.error e, rest) →
      a.perform limit (.parse r) = (.done (some (.sourceFailed e)), .fresh rest a.sink) ∧
        a.perform limit (.analyse r) = (.verdict (.error (.sourceFailed e)), .fresh rest a.sink)

/-- Every analyser turns these requests down. -/
theorem guarded (limit : Option Nat) (a : Analyser σ) : a.Guarded limit where
  mismatch t found hfound hne := by
    cases a with
    | fresh => cases hfound
    | started c =>
        cases hfound
        rw [perform, accept, Cursor.accept_of_ne hne]
        rfl
  late r found hfound := by
    cases a with
    | fresh => cases hfound
    | started c => exact ⟨rfl, rfl⟩
  early hnone := by
    cases a with
    | fresh => exact ⟨rfl, fun _ => rfl, fun _ => rfl⟩
    | started => cases hnone
  unstarted r e rest hnone hdraw := by
    cases a with
    | fresh feed sink =>
        have hparse : (fresh feed sink).parse limit r =
            (some (.sourceFailed e), .fresh rest sink) := parse_of_draw_error r hdraw
        have hanalyse : (fresh feed sink).analyse limit r =
            (.error (.sourceFailed e), .fresh rest sink) := by
          rw [analyse, analyseOn, show (fresh feed sink).parseOn (.limited limit) r = _ from hparse]
        rw [perform, perform, hparse, hanalyse]
        exact ⟨rfl, rfl⟩
    | started => cases hnone

end Analyser

/-! ### The books of a session -/

/-- **The books of a session are right**, over any source and whatever is asked for.

* Once a token has been drawn, the tokens drawn are those accepted, in order, and then the
  lookahead; and there is one more of them than have been accepted.
* The tokens on record are as many as have been accepted, and one more for each acceptance that the
  source has let down.
* Success is on record for each check that succeeded, and at most one does.
* What cannot be answered is turned down, and changes no more than the trace. -/
theorem session_accounts {σ ε : Type} [Feed σ ε] (limit : Option Nat) (source : σ)
    (requests : List Request) :
    let before := Analyser.fresh (⟨source, #[]⟩ : Metered σ ε) .recording
    let session := before.session limit requests
    let a := session.2
    (∃ calls, before.TriesAll limit requests calls) ∧
    (∀ calls, before.TriesAll limit requests calls →
      (a.feed.drawn ≠ [] → ∃ found, a.lookahead? = some found ∧
        a.feed.drawn = returned calls ++ [found] ∧ a.feed.drawn.length = a.consumed + 1) ∧
      (a.feed.drawn = [] → a.lookahead? = none ∧ a.consumed = 0 ∧ returned calls = []) ∧
      (acceptedTokens a.sink.events).length = a.consumed + calls.countP isStarved) ∧
    a.sink.events.count .succeeded = session.1.countP Turn.succeeded ∧
    a.sink.events.count .succeeded ≤ 1 ∧
    a.Guarded limit := by
  intro before session a
  have hfresh : before.Accounted [] [] 0 := ⟨rfl, rfl, rfl, rfl, rfl, Nat.le_refl _⟩
  -- whichever acceptances are tried, the books are right after them
  have hbooks {calls : List (Except (Stop ε) Token)}
      (htries : before.TriesAll limit requests calls) :
      a.Accounted a.sink.events calls (session.1.countP Turn.succeeded) := by
    obtain ⟨events, h⟩ := hfresh.exists_of_triesAll htries
    rw [List.nil_append, Nat.zero_add] at h
    change a.Accounted events calls _ at h
    have hevents : a.sink.events = events := by
      rw [h.recorded]
      rfl
    rw [hevents]
    exact h
  obtain ⟨calls, hcalls⟩ := before.exists_triesAll limit requests
  refine ⟨⟨calls, hcalls⟩, fun tried htries => ?_, (hbooks hcalls).succeeded, ?_,
    a.guarded limit⟩
  · have h := hbooks htries
    refine ⟨fun hdrawn => ?_, fun hdrawn => ?_, h.accepted⟩
    · cases hfound : a.lookahead? with
      | none => exact absurd (h.unstarted hfound).2.2 hdrawn
      | some found =>
          have hall := h.drawn
          rw [hfound] at hall
          refine ⟨found, rfl, hall, ?_⟩
          rw [hall, List.length_append, ← h.consumed]
          rfl
    · obtain ⟨hreturned, hfound⟩ := List.append_eq_nil_iff.1 (h.drawn.symm.trans hdrawn)
      rw [Option.toList_eq_nil_iff] at hfound
      exact ⟨hfound, (h.unstarted hfound).1, hreturned⟩
  · rw [(hbooks hcalls).succeeded]
    exact Nat.le_trans (hbooks hcalls).once a.lookahead?.length_toList_le

/-- An analyser of one argument, with a read behind it that fails at first. -/
def interruptedArgument : Analyser (Metered Reader SourceFailure) :=
  .fresh ⟨{ file := "a.scc", script := [.line ['a'], .failure .notUtf8] }, #[]⟩ .recording

/-- A token whose successor cannot be read at first is on record twice, and accepted once: of the
two acceptances tried the first has been let down. -/
theorem session_accounts_interrupted :
    let requests := [.parse .argumentList, .accept .identifier]
    let a := (interruptedArgument.session none requests).2
    ∃ calls, interruptedArgument.TriesAll none requests calls ∧ calls.length = 2 ∧
      a.consumed = 1 ∧ (acceptedTokens a.sink.events).length = 2 ∧
      calls.countP isStarved = 1 := by
  intro requests a
  -- the check ends at the argument, and the acceptance after it goes on from there
  have hparse : interruptedArgument.parse none .argumentList = (_, _) :=
    parse_of_run rfl
      ((Cursor.run_of_step (.opening rfl rfl)).trans (Cursor.run_of_halts (.starved rfl)))
  have ha : a = ((interruptedArgument.parse none .argumentList).2.accept .identifier).2 := rfl
  rw [hparse] at ha
  have hconsumed : a.consumed = 1 := by
    rw [ha]
    rfl
  have hlength : (acceptedTokens a.sink.events).length = 2 := by
    rw [ha]
    rfl
  have htries : interruptedArgument.TriesAll none requests _ :=
    .cons (.check rfl rfl (.step (.opening rfl rfl) (.halts (.starved rfl)))) (.cons .accept .nil)
  have haccepted : (acceptedTokens a.sink.events).length = a.consumed + _ :=
    ((session_accounts none _ requests).2.1 _ htries).2.2
  rw [hlength, hconsumed] at haccepted
  exact ⟨_, htries, rfl, hconsumed, hlength, (Nat.add_left_cancel (haccepted : 1 + 1 = 1 + _)).symm⟩

end SccSharp
