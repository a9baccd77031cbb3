import SccSharp.Proofs.Sinks

/-!
# Parses that fit their call stack

A parse goes through the same moments on every call stack, as far as there is room. So a parse fits
its call stack if there is room at every moment of the parse without a limit (`Fits`), and then the
two are the same. Otherwise the parse is given up, and its trace is a beginning of the other one.

## Main Definitions

* `Fits` — a source whose parse finds room throughout

## Main Statements

* `recordedOn_of_fits` — a parse that fits is the parse without a limit
* `recordedOn_tooDeep_iff` — any other parse is given up
* `fits_of_limited`, `fits_standard` — what opens few enough rules fits
* `recordedOn_prefix` — what a parse has told when it is given up
-/

namespace SccSharp

namespace Cursor

variable {σ ε : Type} [Feed σ ε] {limit : Option Nat} {stack : CallStack}
variable {c c' d d' : Cursor σ} {agenda agenda' agenda'' last : Agenda} {stop : Option (Stop ε)}

/-! ### One way to go -/

/-- There is only one step to take. -/
theorem Step.unique (h : Step limit c agenda d agenda') (h' : Step limit c agenda d' agenda'') :
    d' = d ∧ agenda'' = agenda' := by
  cases h with
  | close =>
      cases h'
      exact ⟨rfl, rfl⟩
  | continuation =>
      cases h'
      exact ⟨rfl, rfl⟩
  | accept hdraw =>
      cases h' with
      | accept hdraw' =>
          cases hdraw.symm.trans hdraw'
          exact ⟨rfl, rfl⟩
  | opening _ hbody =>
      cases h' with
      | opening _ hbody' =>
          cases hbody.symm.trans hbody'
          exact ⟨rfl, rfl⟩

/-- Where a run halts there is none. -/
theorem Halts.not_step (h : Halts limit c agenda stop d) : ¬ Step limit c agenda d' agenda' := by
  intro hstep
  cases hstep with
  | close | continuation => cases h
  | accept hdraw =>
      cases h with
      | mismatch hne => exact hne rfl
      | starved hdraw' => cases hdraw.symm.trans hdraw'
  | opening hopen hbody =>
      cases h with
      | choice _ hbody' => cases hbody.symm.trans hbody'
      | tooDeep hclosed => cases hopen.symm.trans hclosed

/-- **A run that comes to a halt had room throughout.** -/
theorem StepsOn.hasRoom_of_steps (h : StepsOn stack c agenda d last) (hroom : HasRoom stack d last)
    (hhalts : Halts none d last stop d') (hsteps : Steps none c agenda c' agenda') :
    HasRoom stack c' agenda' := by
  induction h with
  | refl =>
      cases hsteps with
      | refl => exact hroom
      | step hstep => exact absurd hstep hhalts.not_step
  | step hfirst hstep _ ih =>
      cases hsteps with
      | refl => exact hfirst
      | step hstep' hrest =>
          obtain ⟨rfl, rfl⟩ := hstep.unique hstep'
          exact ih hroom hhalts hrest

/-- **A step under a limit opens no rule too many.** -/
theorem Step.length_openRules_le {limit : Nat} (h : Step (some limit) c agenda d agenda')
    (hle : (openRules agenda).length ≤ limit) : (openRules agenda').length ≤ limit := by
  cases h with
  | close => exact Nat.le_of_succ_le hle
  | continuation =>
      rw [openRules_append, openRules_parts, List.nil_append]
      exact hle
  | accept => exact hle
  | opening hopen =>
      rw [openRules_append, openRules_parts, List.nil_append]
      exact of_decide_eq_true hopen

/-- So a run under it has no more than so many open. -/
theorem Steps.length_openRules_le {limit : Nat} (h : Steps (some limit) c agenda d agenda')
    (hle : (openRules agenda).length ≤ limit) : (openRules agenda').length ≤ limit := by
  induction h with
  | refl => exact hle
  | step hstep _ ih => exact ih (hstep.length_openRules_le hle)

/-- Where there is room throughout, the steps without a limit are steps under it. -/
theorem Steps.limited (h : Steps none c agenda d agenda')
    (hroom : ∀ c' last, Steps none c agenda c' last → HasRoom (.limited limit) c' last) :
    Steps limit c agenda d agenda' := by
  induction h with
  | refl => exact .refl
  | step hstep _ ih =>
      exact .step (step_limited_iff.2 ⟨hroom _ _ .refl, hstep⟩)
        (ih fun c' last hsteps => hroom c' last (.step hstep hsteps))

/-- **Room for everything among so many rules** is room for what a limit of so many allows. -/
theorem HasRoom.of_limited {limit : Nat} (h : HasRoom (.limited (some limit)) c agenda)
    (hle : (openRules agenda).length ≤ limit)
    (hroom : ∀ call, ∀ count ≤ limit, stack.room call count = true) : HasRoom stack c agenda := by
  have hunwinds : ∀ count ≤ limit, stack.unwinds count = true := fun count hcount =>
    unwinds_of_room fun k hk => hroom .framing k (Nat.le_trans hk hcount)
  have hfull {call : Call} {count : Nat} (hcount : count ≤ limit)
      (hnone : stack.room call count = false) : False :=
    Bool.false_ne_true (hnone.symm.trans (hroom call count hcount))
  intro d hover
  cases hover with
  | closing hnone => exact hfull hle hnone
  | opening hnone => exact hfull hle hnone
  | accepting hnone => exact hfull hle hnone
  | drawing _ _ hnone => exact hfull hle hnone
  | mismatch _ hreport => exact not_unreported (hroom _ _ hle) (hunwinds _ hle) hreport
  | @choice _ r alternatives agenda _ _ hreport =>
      have hopen : mayOpen (some limit) (openRules agenda).length = true :=
        eq_true_of_ne_false fun hclosed => h c (.opening hclosed)
      have hlt : (openRules agenda).length < limit := by simpa [mayOpen] using hopen
      exact not_unreported (hroom _ _ hlt) (hunwinds _ hlt) hreport

/-- **What has been told where a run is given up**, the run without a limit tells first. -/
theorem Overflows.exists_later (h : Overflows stack c agenda d)
    (hrun : c.run none agenda = (stop, d')) :
    ∃ told later, d.sink = c.sink.emitAll told ∧
      (d'.report stop).sink = c.sink.emitAll (told ++ later) := by
  have hreported {count : Nat} {c d : Cursor σ} {expected : Expectation}
      (h : Unreported stack count c expected d) :
      ∃ told later, d.sink = c.sink.emitAll told ∧
        (c.emit (.rejected c.lookahead expected)).sink = c.sink.emitAll (told ++ later) := by
    cases h with
    | event => exact ⟨[], [.rejected _ _], rfl, rfl⟩
    | frames => exact ⟨[.rejected _ _], [], rfl, rfl⟩
  obtain ⟨events, hevents, -⟩ := exists_events_of_run hrun
  cases h with
  | closing | opening | accepting => exact ⟨[], events, rfl, hevents⟩
  | @drawing drawn feed agenda _ hdraw =>
      cases drawn with
      | ok next =>
          rw [run_of_step (.accept hdraw)] at hrun
          obtain ⟨later, hlater, -⟩ := exists_events_of_run hrun
          exact ⟨[.accepted c.lookahead], later, rfl, hlater⟩
      | error e =>
          rw [run_of_halts (.starved hdraw)] at hrun
          cases hrun
          exact ⟨[.accepted c.lookahead], [], rfl, rfl⟩
  | mismatch hne hreport =>
      rw [run_of_halts (.mismatch hne)] at hrun
      cases hrun
      exact hreported hreport
  | @choice _ r _ _ _ hbody hreport =>
      rw [run_of_halts (.choice (mayOpen_none _) hbody)] at hrun
      cases hrun
      obtain ⟨told, later, htold, hlater⟩ := hreported hreport
      exact ⟨.opened r :: told, later, htold, hlater⟩

end Cursor

/-! ### Parses -/

section

variable {σ ε : Type} [Feed σ ε] {stack : CallStack} {source : σ} {start : Rule}

/-- **A parse that fits its call stack**: there is room at every moment of the parse without a
limit. -/
def Fits (stack : CallStack) (source : σ) (start : Rule) : Prop :=
  ∀ t rest c agenda, Feed.draw source = (.ok t, rest) →
    Cursor.Steps none (.first rest t .recording) [.part (.rule start), .part (.terminal .eof)]
      c agenda → Cursor.HasRoom stack c agenda

/-- Without a limit no parse is given up. -/
theorem recorded_ne_tooDeep (source : σ) (start : Rule) (e : DepthError) :
    (recorded none source start).1 ≠ some (.tooDeep e) := by
  intro h
  obtain ⟨houtcome, -⟩ := recordedOn_outcome (.limited none) source start
  rw [show (recordedOn (.limited none) source start).1 = _ from h] at houtcome
  -- there is room for every call
  have hroom : ∀ call count, (CallStack.limited none).room call count = true := by
    intro call count
    cases call <;> rfl
  generalize (recordedOn (.limited none) source start).2.sink.events = events at houtcome
  cases houtcome with
  | tooDeep _ hfull =>
      obtain ⟨call, count, hfull⟩ := hfull
      exact Bool.false_ne_true (hfull.symm.trans (hroom call count))
  | unreported _ hfull =>
      obtain ⟨count, hfull⟩ := hfull
      exact Bool.false_ne_true (hfull.symm.trans (hroom .framing count))

/-- **A parse that fits is the parse without a limit.** -/
theorem recordedOn_of_fits (h : Fits stack source start) :
    recordedOn stack source start = recorded none source start := by
  rcases recordedOn_cases stack source start with
    ⟨e, rest, hfirst, hparse⟩ | ⟨t, rest, stop, d, hfirst, hrun, hparse⟩
  · rw [hparse, recorded, parse_of_draw_error start hfirst]
  · obtain ⟨c, agenda, hsteps, hends⟩ := Cursor.runOn_eq_iff.1 hrun
    cases hends with
    | halts _ hhalts =>
        have hrun' := Cursor.run_eq_iff.2 ⟨c, agenda, hsteps.steps, hhalts⟩
        rw [hparse, recorded, parse_of_run hfirst hrun']
    | overflows hover => exact absurd hover (h t rest c agenda hfirst hsteps.steps d)

/-- **A parse that does not fit is given up**, and no other one is. -/
theorem recordedOn_tooDeep_iff :
    (∃ e, (recordedOn stack source start).1 = some (.tooDeep e)) ↔ ¬ Fits stack source start := by
  constructor
  · rintro ⟨e, h⟩ hfits
    rw [recordedOn_of_fits hfits] at h
    exact recorded_ne_tooDeep source start e h
  · intro hnot
    rcases recordedOn_cases stack source start with
      ⟨e, rest, hfirst, -⟩ | ⟨t, rest, stop, d, hfirst, hrun, hparse⟩
    · refine absurd ?_ hnot
      intro t' rest' c agenda hfirst'
      cases hfirst.symm.trans hfirst'
    · obtain ⟨c, agenda, hsteps, hends⟩ := Cursor.runOn_eq_iff.1 hrun
      cases hends with
      | halts hroom hhalts =>
          refine absurd ?_ hnot
          intro t' rest' c' agenda' hfirst' hsteps'
          cases hfirst.symm.trans hfirst'
          exact hsteps.hasRoom_of_steps hroom hhalts hsteps'
      | overflows => exact ⟨_, congrArg Prod.fst hparse⟩

/-- A parse that is not given up fits. -/
theorem fits_of_ne_tooDeep (h : ∀ e, (recordedOn stack source start).1 ≠ some (.tooDeep e)) :
    Fits stack source start := by
  by_cases hfits : Fits stack source start
  · exact hfits
  · obtain ⟨e, hstop⟩ := recordedOn_tooDeep_iff.2 hfits
    exact absurd hstop (h e)

/-- **Room for everything among so many rules** is enough for a parse that opens no more. -/
theorem fits_of_limited {limit : Nat} (h : Fits (.limited (some limit)) source start)
    (hroom : ∀ call, ∀ count ≤ limit, stack.room call count = true) : Fits stack source start := by
  intro t rest c agenda hfirst hsteps
  have hlimited : Cursor.Steps (some limit) (.first rest t .recording)
      [.part (.rule start), .part (.terminal .eof)] c agenda :=
    hsteps.limited fun c' last => h t rest c' last hfirst
  exact (h t rest c agenda hfirst hsteps).of_limited
    (hlimited.length_openRules_le (Nat.zero_le limit)) hroom

/-- **On the call stack of the program** every parse fits that opens no more than 978 rules at once,
whatever is written. -/
theorem fits_standard (traced verbose : Bool) (h : Fits (.limited (some 978)) source start) :
    Fits (.standard traced verbose) source start := by
  have hneeds : ∀ call, Call.needs traced verbose call ≤ 14 := by
    intro call
    cases call <;> cases traced <;> cases verbose <;> decide
  refine fits_of_limited h fun call count hcount => ?_
  exact decide_eq_true (Nat.le_trans (Nat.add_le_add hcount (hneeds call)) (by decide))

/-- A statement part that does not begin is rejected, in the one rule that is open. -/
theorem recordedOn_of_ne_begin (stack : CallStack) {t : Token} {rest : σ}
    (hfirst : Feed.draw source = (.ok t, rest))
    (hkind : t.kind ≠ .beginWord) (hopen : stack.room .opening 0 = true)
    (hevent : stack.room .rejecting 1 = true) (hframe : stack.room .framing 1 = true) :
    recordedOn stack source .statementPart =
      (some (.syntaxError ((SyntaxError.raised (.terminal .beginWord t.line) t).withinAll
        [⟨.statementPart, t.line⟩])), .started ((Cursor.first rest t .recording).after [] [
          .opened .statementPart, .rejected t (.terminal .beginWord t.line)] (t, rest))) := by
  have hframes : stack.unwinds 1 = true := by
    rw [CallStack.unwinds, hframe]
    rfl
  exact parseOn_of_run hfirst (Cursor.runOn_eq_iff.2 ⟨_, _,
    .step (Cursor.hasRoom_of_body hopen rfl) (.opening rfl rfl) .refl,
    .halts (Cursor.hasRoom_of_ne hkind hevent hframes) (.mismatch hkind)⟩)

/-- So it fits. -/
theorem fits_of_ne_begin {t : Token} {rest : σ} (hfirst : Feed.draw source = (.ok t, rest))
    (hkind : t.kind ≠ .beginWord) (hopen : stack.room .opening 0 = true)
    (hevent : stack.room .rejecting 1 = true) (hframe : stack.room .framing 1 = true) :
    Fits stack source .statementPart := by
  refine fits_of_ne_tooDeep fun e => ?_
  rw [recordedOn_of_ne_begin stack hfirst hkind hopen hevent hframe]
  exact fun h => nomatch h

/-- **What a parse tells on a call stack**, the parse without a limit tells first. -/
theorem recordedOn_prefix (stack : CallStack) (source : σ) (start : Rule) :
    (recordedOn stack source start).2.sink.events <+:
      (recorded none source start).2.sink.events := by
  rcases recordedOn_cases stack source start with
    ⟨e, rest, hfirst, hparse⟩ | ⟨t, rest, stop, d, hfirst, hrun, hparse⟩
  · rw [hparse]
    exact List.nil_prefix
  · obtain ⟨c, agenda, hsteps, hends⟩ := Cursor.runOn_eq_iff.1 hrun
    cases hends with
    | halts _ hhalts =>
        have hrun' := Cursor.run_eq_iff.2 ⟨c, agenda, hsteps.steps, hhalts⟩
        have hsame : recorded none source start = recordedOn stack source start :=
          (parse_of_run hfirst hrun').trans hparse.symm
        exact hsame ▸ List.prefix_rfl
    | overflows hover =>
        obtain ⟨events, -, hafter⟩ := hsteps.steps.exists_after
        cases hunlimited : c.run none agenda with
        | mk stop' d' =>
            have hrun' := (Cursor.run_of_steps hsteps.steps).trans hunlimited
            obtain ⟨told, later, htold, hlater⟩ := hover.exists_later hunlimited
            have hsink : c.sink = Sink.recording.emitAll events := congrArg Cursor.sink hafter
            rw [hparse, recorded, parse_of_run hfirst hrun']
            show d.sink.events <+: (d'.report stop').sink.events
            rw [htold, hlater, hsink, ← Sink.emitAll_append, ← Sink.emitAll_append,
              Sink.events_emitAll_recording, Sink.events_emitAll_recording]
            exact ⟨later, by rw [List.append_assoc]⟩

end

end SccSharp
