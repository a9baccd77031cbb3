import SccSharp.Proofs.Outcome

/-!
# Parses told by kinds

A parse asks a token for its kind and for nothing else. Texts and lines are carried along, into
events, entries of error chains and depth errors, but no decision rests on them.

So a parse can be told without a token: `Course` names rules, terminals and choices, and where
something is said of a token, the position of it. Two lists of tokens with the same kinds have the
same course, and each parse is what the course becomes once every position is replaced by the token
that the list has there (`same_course`).

The course is made along a run. `Stage` is a moment of it, and steps from stage to stage need the
kinds of a list and not the list (`Stage.Step`, `Stage.Ends`). Over every list with these kinds
they are the steps of the run there, and a run makes no others.

## Main Definitions

* `TokenQueue.nth`, `TokenQueue.kindAt` — the token at a position, and its kind
* `Mark`, `Conclusion`, `Course` — events, ends and whole parses told by positions
* `Course.Tells` — what a course says of a parse
* `Stage`, `Stage.Step`, `Stage.Ends` — moments of a parse told by positions, and what kinds decide
  there

## Main Statements

* `Cursor.Steps.exists_stage` — a run over one list goes along with those over all others
* `exists_course` — kinds have a course
* `same_course` — kinds decide the course of a parse
-/

namespace SccSharp

/-! ### Tokens by their positions -/

namespace TokenQueue

/-- **The token at a position** of a queue; behind the tokens of the queue, the sentinel. -/
def nth (q : TokenQueue) (i : Nat) : Token :=
  (q.body[i]?).getD q.sentinel

/-- Draws begin at the first position. -/
theorem nth_zero (q : TokenQueue) : q.nth 0 = q.draw.1 := by
  rcases q.draw_cases with ⟨hbody, hdraw⟩ | ⟨hbody, -⟩
  · rw [nth, hbody, hdraw]
    rfl
  · rw [nth, hbody]
    rfl

/-- A draw leaves the positions after the first. -/
theorem nth_draw (q : TokenQueue) (i : Nat) : q.draw.2.nth i = q.nth (i + 1) := by
  rcases q.draw_cases with ⟨hbody, hdraw⟩ | ⟨hbody, hsentinel⟩
  · rw [hdraw, nth, nth, hbody]
    rfl
  · rw [nth, nth, hbody, hsentinel, List.getElem?_cons_succ]

/-- A queue after some draws. -/
def afterDraws (q : TokenQueue) : Nat → TokenQueue
  | 0 => q
  | count + 1 => q.draw.2.afterDraws count

/-- **A queue is drawn position by position.** -/
theorem draw_afterDraws (q : TokenQueue) (i : Nat) :
    Feed.draw (q.afterDraws i) = (.ok (q.nth i), q.afterDraws (i + 1)) := by
  induction i generalizing q with
  | zero =>
      rw [nth_zero]
      rfl
  | succ i ih =>
      rw [← nth_draw]
      exact ih q.draw.2

/-- The terminals of a queue are a matter of the kinds of its tokens. -/
theorem word_eq_takeWhile (q : TokenQueue) :
    q.word = (q.tokens.map Token.kind).takeWhile fun t => t ≠ .eof := by
  rw [word, body, List.takeWhile_map]
  rfl

/-- The kind of the token at a position. -/
def kindAt (q : TokenQueue) (i : Nat) : Terminal :=
  (q.nth i).kind

theorem kindAt_eq (q : TokenQueue) (i : Nat) : q.kindAt i = (q.word[i]?).getD .eof := by
  rw [kindAt, nth, word, List.getElem?_map, ← q.kind_sentinel, Option.getD_map]

/-- **Queues of the same kinds have the same kind at every position.** -/
theorem kindAt_congr {p q : TokenQueue} (h : p.tokens.map Token.kind = q.tokens.map Token.kind) :
    p.kindAt = q.kindAt := by
  funext i
  rw [kindAt_eq, kindAt_eq, word_eq_takeWhile, word_eq_takeWhile, h]

end TokenQueue

/-! ### Parses without tokens -/

/-- What a parse can require of a token. -/
inductive Requirement where
  | terminal (t : Terminal)
  | choice (c : Choice)

/-- A requirement as an expectation, with the line of the token that does not meet it. -/
def Requirement.expectation : Requirement → Int → Expectation
  | terminal t, line => .terminal t line
  | choice c, line => .choice c line

/-- A rule and the position of the token that was ahead when it was opened. -/
structure PlacedRule where
  rule : Rule
  position : Nat

/-- The rule with the line of that token. -/
def PlacedRule.openRule (tokenAt : Nat → Token) (r : PlacedRule) : OpenRule :=
  ⟨r.rule, (tokenAt r.position).line⟩

/-- **An event told by positions.** -/
inductive Mark where
  | opened (r : Rule)
  | closed (r : Rule)
  | accepted (position : Nat)
  | succeeded
  | rejected (position : Nat) (required : Requirement)

namespace Mark

/-- The event itself. -/
def event (tokenAt : Nat → Token) : Mark → Event
  | opened r => .opened r
  | closed r => .closed r
  | accepted i => .accepted (tokenAt i)
  | succeeded => .succeeded
  | rejected i required => .rejected (tokenAt i) (required.expectation (tokenAt i).line)

/-- The position whose token is accepted. -/
def accepted? : Mark → Option Nat
  | accepted i => some i
  | _ => none

end Mark

/-- **An end told by positions**; `open_` are the rules around a syntax error, innermost first. -/
inductive Conclusion where
  | succeeded
  | syntaxError (required : Requirement) (open_ : List PlacedRule)
  | tooDeep

/-- The reason of an end, at the position reached. -/
def Conclusion.stop (tokenAt : Nat → Token) (position : Nat) : Conclusion → Option (Stop Empty)
  | succeeded => none
  | syntaxError required open_ =>
      some (.syntaxError ((SyntaxError.raised
        (required.expectation (tokenAt position).line) (tokenAt position)).withinAll
          (open_.map (PlacedRule.openRule tokenAt))))
  | tooDeep => some (.tooDeep ⟨tokenAt position, position⟩)

/-- **A whole parse told by positions.** Tokens are accepted one position after the other. -/
structure Course where
  consumed : Nat
  marks : List Mark
  conclusion : Conclusion
  /-- The positions accepted are the first ones, in order. -/
  inOrder : marks.filterMap Mark.accepted? = List.range consumed
  /-- The rules around a syntax error were opened at positions up to that of the token rejected. -/
  behind : ∀ required open_, conclusion = .syntaxError required open_ →
    ∀ r ∈ open_, r.position ≤ consumed

/-- **What a course says of a parse**: how it ends, what it records, and how many tokens it
accepts. -/
structure Course.Tells (course : Course) (limit : Option Nat) (q : TokenQueue) (start : Rule) :
    Prop where
  stop : (recorded limit q start).1 = course.conclusion.stop q.nth course.consumed
  events : (recorded limit q start).2.sink.events = course.marks.map (Mark.event q.nth)
  consumed : (recorded limit q start).2.consumed = course.consumed

/-! ### Moments of a parse -/

/-- One thing to do, told by positions. -/
inductive PlacedTask where
  | part (p : Part)
  | close (r : PlacedRule)

namespace PlacedTask

/-- The thing to do itself. -/
def task (tokenAt : Nat → Token) : PlacedTask → Task
  | part p => .part p
  | close r => .close (r.openRule tokenAt)

/-- The rule that it closes. -/
def closes? : PlacedTask → Option PlacedRule
  | close r => some r
  | part _ => none

end PlacedTask

/-- **A moment of a parse told by positions**: the position reached, what has happened, and what is
still to do. -/
structure Stage where
  position : Nat
  marks : List Mark
  tasks : List PlacedTask

namespace Stage

/-- The rules that are open, innermost first. -/
def openRules (s : Stage) : List PlacedRule :=
  s.tasks.filterMap PlacedTask.closes?

/-- What is still to do over a list. -/
def agenda (s : Stage) (q : TokenQueue) : Agenda :=
  s.tasks.map (PlacedTask.task q.nth)

/-- The cursor of the moment over a list. -/
def cursor (s : Stage) (q : TokenQueue) : Cursor TokenQueue where
  feed := q.afterDraws (s.position + 1)
  lookahead := q.nth s.position
  consumed := s.position
  sink := .record (s.marks.map (Mark.event q.nth)).toArray

/-- **Tokens are accepted in order**, and rules are opened in front of tokens that have been ahead
already. -/
structure Placed (s : Stage) : Prop where
  inOrder : s.marks.filterMap Mark.accepted? = List.range s.position
  behind : ∀ r ∈ s.openRules, r.position ≤ s.position

/-- **A step of a parse decided by kinds alone.** -/
inductive Step (limit : Option Nat) (kindAt : Nat → Terminal) : Stage → Stage → Prop where
  | close {i : Nat} {marks : List Mark} {r : PlacedRule} {tasks : List PlacedTask} :
      Step limit kindAt ⟨i, marks, .close r :: tasks⟩ ⟨i, marks ++ [.closed r.rule], tasks⟩
  | continuation {i : Nat} {marks : List Mark} {k : Continuation} {tasks : List PlacedTask} :
      Step limit kindAt ⟨i, marks, .part (.continuation k) :: tasks⟩
        ⟨i, marks, (k.body (kindAt i)).map .part ++ tasks⟩
  | accept {i : Nat} {marks : List Mark} {tasks : List PlacedTask} :
      Step limit kindAt ⟨i, marks, .part (.terminal (kindAt i)) :: tasks⟩
        ⟨i + 1, marks ++ [.accepted i], tasks⟩
  | opening {i : Nat} {marks : List Mark} {r : Rule} {body : List Part}
      {tasks : List PlacedTask} :
      mayOpen limit (tasks.filterMap PlacedTask.closes?).length = true →
        r.body (kindAt i) = .ok body →
          Step limit kindAt ⟨i, marks, .part (.rule r) :: tasks⟩
            ⟨i, marks ++ [.opened r], body.map .part ++ .close ⟨r, i⟩ :: tasks⟩

/-- **An end of a parse decided by kinds alone**, with all that has happened then. -/
inductive Ends (limit : Option Nat) (kindAt : Nat → Terminal) :
    Stage → List Mark → Conclusion → Prop where
  | succeeded {i : Nat} {marks : List Mark} :
      Ends limit kindAt ⟨i, marks, []⟩ (marks ++ [.succeeded]) .succeeded
  | mismatch {i : Nat} {marks : List Mark} {t : Terminal} {tasks : List PlacedTask} :
      kindAt i ≠ t →
        Ends limit kindAt ⟨i, marks, .part (.terminal t) :: tasks⟩
          (marks ++ [.rejected i (.terminal t)])
          (.syntaxError (.terminal t) (tasks.filterMap PlacedTask.closes?))
  | choice {i : Nat} {marks : List Mark} {r : Rule} {alternatives : Choice}
      {tasks : List PlacedTask} :
      mayOpen limit (tasks.filterMap PlacedTask.closes?).length = true →
        r.body (kindAt i) = .error alternatives →
          Ends limit kindAt ⟨i, marks, .part (.rule r) :: tasks⟩
            (marks ++ [.opened r] ++ [.rejected i (.choice alternatives)])
            (.syntaxError (.choice alternatives)
              (⟨r, i⟩ :: tasks.filterMap PlacedTask.closes?))
  | tooDeep {i : Nat} {marks : List Mark} {r : Rule} {tasks : List PlacedTask} :
      mayOpen limit (tasks.filterMap PlacedTask.closes?).length = false →
        Ends limit kindAt ⟨i, marks, .part (.rule r) :: tasks⟩ marks .tooDeep

end Stage

/-! ### Stages over a list -/

section

variable (tokenAt : Nat → Token)

/-- The rules that an agenda closes are those of its tasks. -/
theorem openRules_map_task (tasks : List PlacedTask) :
    openRules (tasks.map (PlacedTask.task tokenAt)) =
      (tasks.filterMap PlacedTask.closes?).map (PlacedRule.openRule tokenAt) := by
  induction tasks with
  | nil => rfl
  | cons t tasks ih =>
      cases t with
      | part p => exact ih
      | close r => exact congrArg (r.openRule tokenAt :: ·) ih

/-- There are as many over every list. -/
theorem length_openRules_map_task (tasks : List PlacedTask) :
    (openRules (tasks.map (PlacedTask.task tokenAt))).length =
      (tasks.filterMap PlacedTask.closes?).length := by
  rw [openRules_map_task, List.length_map]

/-- Parts of a production are the same over every list. -/
theorem map_task_parts (parts : List Part) (tasks : List PlacedTask) :
    (parts.map PlacedTask.part ++ tasks).map (PlacedTask.task tokenAt) =
      parts.map Task.part ++ tasks.map (PlacedTask.task tokenAt) := by
  rw [List.map_append, List.map_map]
  rfl

/-- Parts of a production close nothing. -/
theorem closes_parts (parts : List Part) (tasks : List PlacedTask) :
    (parts.map PlacedTask.part ++ tasks).filterMap PlacedTask.closes? =
      tasks.filterMap PlacedTask.closes? := by
  induction parts with
  | nil => rfl
  | cons p parts ih => exact ih

/-- A mark that accepts nothing adds no position. -/
theorem filterMap_accepted?_concat {m : Mark} (h : m.accepted? = none) (marks : List Mark) :
    (marks ++ [m]).filterMap Mark.accepted? = marks.filterMap Mark.accepted? := by
  have hnone : [m].filterMap Mark.accepted? = [] := List.filterMap_cons_none h
  rw [List.filterMap_append, hnone, List.append_nil]

end

namespace Stage

variable {limit : Option Nat} {q : TokenQueue} {s s' : Stage}

/-- One more event. -/
theorem emit_cursor (q : TokenQueue) (i : Nat) (marks : List Mark)
    (tasks tasks' : List PlacedTask) (m : Mark) :
    (cursor ⟨i, marks, tasks⟩ q).emit (m.event q.nth) = cursor ⟨i, marks ++ [m], tasks'⟩ q := by
  simp only [cursor, Cursor.emit, Sink.emit_record_toArray, List.map_append, List.map_cons,
    List.map_nil]

/-- One more token. -/
theorem after_cursor (q : TokenQueue) (i : Nat) (marks : List Mark)
    (tasks tasks' : List PlacedTask) :
    (cursor ⟨i, marks, tasks⟩ q).after [q.nth i] [.accepted (q.nth i)]
        (q.nth (i + 1), q.afterDraws (i + 1 + 1)) =
      cursor ⟨i + 1, marks ++ [.accepted i], tasks'⟩ q := by
  simp only [cursor, Cursor.after, Sink.emitAll, List.foldl_cons, List.foldl_nil,
    Sink.emit_record_toArray, List.map_append, List.map_cons, List.map_nil]
  rfl

/-- Steps decided by kinds are steps over the list. -/
theorem Step.run (h : Step limit q.kindAt s s') :
    Cursor.Step limit (s.cursor q) (s.agenda q) (s'.cursor q) (s'.agenda q) := by
  cases h with
  | close =>
      rw [← emit_cursor]
      exact .close
  | continuation =>
      rw [agenda, agenda, map_task_parts]
      exact .continuation
  | accept =>
      rw [← after_cursor]
      exact .accept (q.draw_afterDraws _)
  | opening hopen hbody =>
      rw [← emit_cursor, agenda, agenda, map_task_parts]
      rw [← length_openRules_map_task q.nth] at hopen
      exact .opening hopen hbody

/-- Steps over a list are decided by kinds. -/
theorem Step.exists_of_run {d : Cursor TokenQueue} {agenda : Agenda}
    (h : Cursor.Step limit (s.cursor q) (s.agenda q) d agenda) :
    ∃ s', Step limit q.kindAt s s' ∧ d = s'.cursor q ∧ agenda = s'.agenda q := by
  obtain ⟨i, marks, tasks⟩ := s
  cases tasks with
  | nil => cases h
  | cons task tasks =>
      replace h : Cursor.Step limit (cursor ⟨i, marks, []⟩ q)
        (task.task q.nth :: tasks.map (PlacedTask.task q.nth)) d agenda := h
      cases task with
      | close r =>
          cases h
          exact ⟨_, .close, emit_cursor q i marks [] tasks (.closed r.rule), rfl⟩
      | part p =>
          cases p with
          | terminal t =>
              cases h with
              | accept hdraw =>
                  cases (q.draw_afterDraws (i + 1)).symm.trans hdraw
                  exact ⟨_, .accept, after_cursor q i marks _ _, rfl⟩
          | continuation k =>
              cases h
              refine ⟨_, .continuation, rfl, ?_⟩
              rw [Stage.agenda, map_task_parts]
              rfl
          | rule r =>
              cases h with
              | opening hopen hbody =>
                  rw [length_openRules_map_task] at hopen
                  refine ⟨_, .opening hopen hbody, emit_cursor q i marks [] _ (.opened r), ?_⟩
                  rw [Stage.agenda, map_task_parts]
                  rfl

/-- Ends decided by kinds are halts over the list. -/
theorem Ends.run {marks : List Mark} {conclusion : Conclusion}
    (h : Ends limit q.kindAt s marks conclusion) :
    ∃ d, Cursor.Halts limit (s.cursor q) (s.agenda q) (conclusion.stop q.nth s.position) d ∧
      d.report (conclusion.stop q.nth s.position) = cursor ⟨s.position, marks, s.tasks⟩ q := by
  cases h with
  | @succeeded i marks => exact ⟨_, .done, emit_cursor q i marks [] [] .succeeded⟩
  | @mismatch i marks t tasks hne =>
      refine ⟨_, ?_, emit_cursor q i marks [] _ (.rejected i (.terminal t))⟩
      rw [Conclusion.stop, ← openRules_map_task]
      exact .mismatch hne
  | @choice i marks r alternatives tasks hopen hbody =>
      rw [← length_openRules_map_task q.nth] at hopen
      have hopened : (cursor ⟨i, marks, []⟩ q).emit (.opened r) =
          cursor ⟨i, marks ++ [.opened r], []⟩ q := emit_cursor q i marks [] [] (.opened r)
      refine ⟨_, ?_, (congrArg (Cursor.emit · _) hopened).trans
        (emit_cursor q i _ [] _ (.rejected i (.choice alternatives)))⟩
      rw [Conclusion.stop, List.map_cons, ← openRules_map_task]
      exact .choice hopen hbody
  | tooDeep hopen =>
      rw [← length_openRules_map_task q.nth] at hopen
      exact ⟨_, .tooDeep hopen, rfl⟩

/-- Halts over a list are decided by kinds. -/
theorem Ends.exists_of_run {stop : Option (Stop Empty)} {d : Cursor TokenQueue}
    (h : Cursor.Halts limit (s.cursor q) (s.agenda q) stop d) :
    ∃ marks conclusion, Ends limit q.kindAt s marks conclusion := by
  obtain ⟨i, marks, tasks⟩ := s
  cases tasks with
  | nil => exact ⟨_, _, .succeeded⟩
  | cons task tasks =>
      replace h : Cursor.Halts limit (cursor ⟨i, marks, []⟩ q)
        (task.task q.nth :: tasks.map (PlacedTask.task q.nth)) stop d := h
      cases task with
      | close r => cases h
      | part p =>
          cases p with
          | terminal t =>
              cases h with
              | mismatch hne => exact ⟨_, _, .mismatch hne⟩
              | starved hdraw => cases (q.draw_afterDraws (i + 1)).symm.trans hdraw
          | continuation k => cases h
          | rule r =>
              cases h with
              | choice hopen hbody =>
                  rw [length_openRules_map_task] at hopen
                  exact ⟨_, _, .choice hopen hbody⟩
              | tooDeep hopen =>
                  rw [length_openRules_map_task] at hopen
                  exact ⟨_, _, .tooDeep hopen⟩

/-! ### Positions along a parse -/

/-- **A step keeps tokens in order.** -/
theorem Placed.of_step {kindAt : Nat → Terminal} (h : s.Placed) (hstep : Step limit kindAt s s') :
    s'.Placed := by
  obtain ⟨hinOrder, hbehind⟩ := h
  cases hstep with
  | close =>
      exact ⟨(filterMap_accepted?_concat rfl _).trans hinOrder,
        fun r hr => hbehind r (List.mem_cons_of_mem _ hr)⟩
  | continuation =>
      refine ⟨hinOrder, ?_⟩
      rw [Stage.openRules, closes_parts]
      exact hbehind
  | accept =>
      refine ⟨?_, fun r hr => Nat.le_succ_of_le (hbehind r hr)⟩
      rw [List.filterMap_append, hinOrder, List.range_succ]
      rfl
  | opening =>
      refine ⟨(filterMap_accepted?_concat rfl _).trans hinOrder, ?_⟩
      rw [Stage.openRules, closes_parts]
      exact List.forall_mem_cons.2 ⟨Nat.le_refl _, hbehind⟩

/-- An end accepts no token. -/
theorem Ends.inOrder {kindAt : Nat → Terminal} {marks : List Mark} {conclusion : Conclusion}
    (h : Ends limit kindAt s marks conclusion) :
    marks.filterMap Mark.accepted? = s.marks.filterMap Mark.accepted? := by
  cases h with
  | succeeded => exact filterMap_accepted?_concat rfl _
  | mismatch => exact filterMap_accepted?_concat rfl _
  | choice => rw [filterMap_accepted?_concat rfl, filterMap_accepted?_concat rfl]
  | tooDeep => rfl

/-- The rules around a syntax error are those that are open, and the one that makes a choice. -/
theorem Ends.behind {kindAt : Nat → Terminal} {marks : List Mark} {required : Requirement}
    {open_ : List PlacedRule} (h : Ends limit kindAt s marks (.syntaxError required open_))
    (hplaced : s.Placed) : ∀ r ∈ open_, r.position ≤ s.position := by
  cases h with
  | mismatch => exact hplaced.behind
  | choice => exact List.forall_mem_cons.2 ⟨Nat.le_refl _, hplaced.behind⟩

end Stage

/-! ### Runs over lists with the same kinds -/

section Runs

variable {limit : Option Nat} {q : TokenQueue} {s : Stage}

/-- **Steps lead from stage to stage**, and do so over every list with the same kinds. -/
theorem Cursor.Steps.exists_stage {d : Cursor TokenQueue} {agenda : Agenda}
    (h : Steps limit (s.cursor q) (s.agenda q) d agenda) (hplaced : s.Placed) :
    ∃ s' : Stage, s'.Placed ∧ d = s'.cursor q ∧ agenda = s'.agenda q ∧
      ∀ p : TokenQueue, p.kindAt = q.kindAt →
        Steps limit (s.cursor p) (s.agenda p) (s'.cursor p) (s'.agenda p) := by
  generalize hcursor : s.cursor q = c at h
  generalize hagenda : s.agenda q = first at h
  induction h generalizing s with
  | refl => exact ⟨s, hplaced, hcursor.symm, hagenda.symm, fun _ _ => .refl⟩
  | step hstep _ ih =>
      subst hcursor hagenda
      obtain ⟨middle, hmiddle, rfl, rfl⟩ := Stage.Step.exists_of_run hstep
      obtain ⟨last, hlast, hcursor, hagenda, hsteps⟩ := ih (hplaced.of_step hmiddle) rfl rfl
      refine ⟨last, hlast, hcursor, hagenda, fun p hkinds => .step ?_ (hsteps p hkinds)⟩
      exact (hkinds ▸ hmiddle : Stage.Step limit p.kindAt _ _).run

/-- **Kinds have one course.** -/
theorem exists_course (limit : Option Nat) (q : TokenQueue) (start : Rule) :
    ∃ course : Course, ∀ p : TokenQueue, p.kindAt = q.kindAt → course.Tells limit p start := by
  -- the stage in front of the first token
  let first : Stage := ⟨0, [], [.part (.rule start), .part (.terminal .eof)]⟩
  have hfirst : first.Placed := ⟨rfl, List.forall_mem_nil _⟩
  obtain ⟨c, agenda, hsteps, hhalts⟩ :=
    Cursor.exists_halts limit (first.cursor q) (first.agenda q)
  obtain ⟨last, hlast, rfl, rfl, hothers⟩ := hsteps.exists_stage hfirst
  obtain ⟨marks, conclusion, hends⟩ := Stage.Ends.exists_of_run hhalts
  refine ⟨⟨last.position, marks, conclusion, hends.inOrder.trans hlast.inOrder, ?_⟩, ?_⟩
  · rintro required open_ rfl
    exact hends.behind hlast
  · intro p hkinds
    obtain ⟨d, hhalts, hreport⟩ := (hkinds ▸ hends : Stage.Ends limit p.kindAt _ _ _).run
    have hrun := Cursor.run_eq_iff.2 ⟨_, _, hothers p hkinds, hhalts⟩
    have hparse : recorded limit p start = (conclusion.stop p.nth last.position,
        .started (Stage.cursor ⟨last.position, marks, last.tasks⟩ p)) := by
      rw [← hreport]
      exact parse_of_run (p.draw_afterDraws 0) hrun
    refine ⟨congrArg Prod.fst hparse, ?_, ?_⟩
    · rw [hparse]
      rfl
    · rw [hparse]
      rfl

end Runs

/-! ### Kinds decide -/

/-- **Kinds decide the course of a parse.** Where two lists of tokens have the same kinds, whatever
their texts and lines are, one course tells both parses. They end in the same way, after as many
tokens, and where that is a syntax error, the same was required and the same rules are around it;
and they make the same events. A token in an event or an error is the one that the list has at the
position that the course names, and every line is the line of such a token. -/
theorem same_course (limit : Option Nat) {first second : TokenQueue} (start : Rule)
    (hkinds : first.tokens.map Token.kind = second.tokens.map Token.kind) :
    ∃ course : Course, course.Tells limit first start ∧ course.Tells limit second start := by
  obtain ⟨course, htells⟩ := exists_course limit second start
  exact ⟨course, htells first (TokenQueue.kindAt_congr hkinds), htells second rfl⟩

/-- Other texts on other lines, of the kinds of an argument and two commas. -/
def twoOtherCommas : TokenQueue :=
  ⟨[⟨.identifier, "total", 7⟩, ⟨.comma, "", 3⟩, ⟨.comma, "and", 12⟩], 5⟩

/-- The course of two commas is a syntax error on other lines as well. -/
theorem same_course_twoCommas :
    ∃ course : Course, course.Tells none twoCommas .argumentList ∧
      course.Tells none twoOtherCommas .argumentList ∧
      ∃ required open_, course.conclusion = .syntaxError required open_ := by
  have hkinds : twoCommas.tokens.map Token.kind = twoOtherCommas.tokens.map Token.kind := rfl
  obtain ⟨course, hfirst, hsecond⟩ := same_course none .argumentList hkinds
  obtain ⟨e, a, hparse⟩ := exists_syntaxError_twoCommas
  refine ⟨course, hfirst, hsecond, ?_⟩
  have hstop : course.conclusion.stop twoCommas.nth course.consumed = some (.syntaxError e) :=
    hfirst.stop.symm.trans (congrArg Prod.fst hparse)
  cases hconclusion : course.conclusion with
  | succeeded =>
      rw [hconclusion] at hstop
      cases hstop
  | syntaxError required open_ => exact ⟨required, open_, rfl⟩
  | tooDeep =>
      rw [hconclusion] at hstop
      cases hstop

end SccSharp
