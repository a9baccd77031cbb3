import SccSharp.Event

/-!
# Nesting of events

Which of the rules begun in a trace have been ended. Beginnings and endings match like brackets:
events are balanced if every rule begun in them is ended again, inside the rule around it, and the
end that matches a beginning comes right after balanced events.

A beginning without a match is pending. The pending beginnings of a trace, read backwards, are a
stack: `Pending` lists them, and each event has one effect on the list (`Pending.opened`,
`Pending.closed`, `Pending.flat`).

## Main Definitions

* `Balanced` — events that end what they begin
* `Begin` — a beginning of a rule, with the events before it
* `Begin.Unmatched` — a beginning of a trace that no ending in it matches
* `Pending` — the beginnings without a match, the last one first
* `Disciplined` — every ending names the latest beginning without a match

## Main Statements

* `Pending.unmatched_iff` — the pending beginnings are those that no ending matches
* `Pending.closed` — an ending takes the last of them away
-/

namespace SccSharp

/-! ### Depth -/

/-- How much deeper an event leads. -/
def Event.rise : Event → Int
  | opened _ => 1
  | closed _ => -1
  | _ => 0

/-- How much deeper some events lead: the beginnings less the endings among them. -/
def depth : List Event → Int
  | [] => 0
  | e :: events => e.rise + depth events

@[simp] theorem depth_nil : depth [] = 0 := rfl

@[simp] theorem depth_cons (e : Event) (events : List Event) :
    depth (e :: events) = e.rise + depth events := rfl

@[simp] theorem depth_append (first second : List Event) :
    depth (first ++ second) = depth first + depth second := by
  induction first with
  | nil => exact (Int.zero_add _).symm
  | cons e first ih => rw [List.cons_append, depth_cons, depth_cons, ih, Int.add_assoc]

/-! ### Balanced events -/

/-- **Balanced events**: every rule begun is ended, and no other. -/
inductive Balanced : List Event → Prop where
  | nil : Balanced []
  | flat {e : Event} {events : List Event} : e.rise = 0 → Balanced events → Balanced (e :: events)
  | nested {r : Rule} {inner rest : List Event} :
      Balanced inner → Balanced rest → Balanced (.opened r :: (inner ++ .closed r :: rest))

namespace Balanced

variable {events first second before later : List Event} {r : Rule}

theorem append (h : Balanced first) (h' : Balanced second) : Balanced (first ++ second) := by
  induction h with
  | nil => exact h'
  | flat he _ ih => exact .flat he ih
  | @nested r inner rest hinner _ _ ih =>
      rw [List.cons_append, List.append_assoc, List.cons_append]
      exact .nested hinner ih

/-- Balanced events lead back to where they started. -/
theorem depth_eq_zero (h : Balanced events) : depth events = 0 := by
  induction h with
  | nil => rfl
  | flat he _ ih => rw [depth_cons, he, ih, Int.zero_add]
  | nested _ _ ihInner ih =>
      rw [depth_cons, depth_append, depth_cons, ihInner, ih]
      rfl

/-- Balanced events end nothing that was begun before them. -/
theorem depth_nonneg (h : Balanced events) (split : events = first ++ second) :
    0 ≤ depth first := by
  induction h generalizing first second with
  | nil =>
      obtain ⟨rfl, -⟩ := List.append_eq_nil_iff.1 split.symm
      exact Int.le_refl _
  | flat he _ ih =>
      cases first with
      | nil => exact Int.le_refl _
      | cons e' first =>
          obtain ⟨rfl, htail⟩ := List.cons.inj split
          rw [depth_cons, he, Int.zero_add]
          exact ih htail
  | @nested r inner rest hinner _ ihInner ih =>
      cases first with
      | nil => exact Int.le_refl _
      | cons e' first =>
          obtain ⟨rfl, htail⟩ := List.cons.inj split
          have hopen : depth (.opened r :: first) = 1 + depth first := depth_cons _ _
          rw [hopen]
          rcases List.append_eq_append_iff.1 htail with ⟨part, rfl, hpart⟩ | ⟨part, rfl, -⟩
          · -- the split is inside the rule or after it
            rw [depth_append, hinner.depth_eq_zero]
            cases part with
            | nil => decide
            | cons e'' part =>
                obtain ⟨rfl, hrest⟩ := List.cons.inj hpart
                have hpart' := ih hrest
                have hclose : depth (.closed r :: part) = -1 + depth part := depth_cons _ _
                omega
          · have hfirst := ihInner rfl
            omega

/-- Every beginning among balanced events is matched there. -/
theorem exists_match (h : Balanced events) (split : events = before ++ .opened r :: later) :
    ∃ inner rest, Balanced inner ∧ later = inner ++ .closed r :: rest := by
  induction h generalizing before later with
  | nil => exact absurd split (by simp)
  | flat he _ ih =>
      cases before with
      | nil =>
          obtain ⟨rfl, -⟩ := List.cons.inj split
          exact absurd he Int.one_ne_zero
      | cons e' before => exact ih (List.cons.inj split).2
  | @nested q inner rest hinner _ ihInner ih =>
      cases before with
      | nil =>
          obtain ⟨hrule, rfl⟩ := List.cons.inj split
          cases hrule
          exact ⟨inner, rest, hinner, rfl⟩
      | cons e' before =>
          rcases List.append_eq_append_iff.1 (List.cons.inj split).2 with
            ⟨part, rfl, hpart⟩ | ⟨part, rfl, hpart⟩
          · cases part with
            | nil => cases hpart
            | cons e'' part => exact ih (List.cons.inj hpart).2
          · cases part with
            | nil => cases hpart
            | cons e'' part =>
                obtain ⟨rfl, rfl⟩ := List.cons.inj hpart
                obtain ⟨inner', rest', hinner', rfl⟩ := ihInner rfl
                exact ⟨inner', rest' ++ .closed q :: rest, hinner', by simp⟩

/-- Balanced events do not go on with an ending and remain balanced. -/
theorem ne_append_closed (h : Balanced events) (hfirst : Balanced first) :
    events ≠ first ++ .closed r :: second := by
  intro split
  have hsplit : events = (first ++ [.closed r]) ++ second := by simp [split]
  have hnonneg := h.depth_nonneg hsplit
  have hclosed : depth (first ++ [.closed r]) = -1 := by
    rw [depth_append, hfirst.depth_eq_zero]
    rfl
  omega

end Balanced

/-! ### Pending beginnings -/

/-- A rule that is begun, with the events before. -/
structure Begin where
  before : List Event
  rule : Rule

/-- **A beginning that no ending matches**: what comes after it in the trace does not start with
balanced events and an ending of the rule. -/
def Begin.Unmatched (b : Begin) (events : List Event) : Prop :=
  ∃ later, events = b.before ++ .opened b.rule :: later ∧
    ∀ inner rest, Balanced inner → later ≠ inner ++ .closed b.rule :: rest

/-- **Pending beginnings**, the last one first: between two of them, and after the last, events are
balanced. -/
inductive Pending : List Event → List Begin → Prop where
  | balanced {events : List Event} : Balanced events → Pending events []
  | begun {b : Begin} {inner : List Event} {begins : List Begin} :
      Pending b.before begins → Balanced inner →
        Pending (b.before ++ .opened b.rule :: inner) (b :: begins)

namespace Pending

variable {events inner : List Event} {b : Begin} {begins : List Begin} {r : Rule}

/-- Balanced events change nothing. -/
theorem append (h : Pending events begins) (hinner : Balanced inner) :
    Pending (events ++ inner) begins := by
  cases h with
  | balanced h => exact .balanced (h.append hinner)
  | begun hbefore h =>
      rw [List.append_assoc, List.cons_append]
      exact .begun hbefore (h.append hinner)

/-- An event that neither begins nor ends a rule changes nothing. -/
theorem flat {e : Event} (h : Pending events begins) (he : e.rise = 0) :
    Pending (events ++ [e]) begins :=
  h.append (.flat he .nil)

/-- A beginning is pending at first. -/
theorem opened (h : Pending events begins) (r : Rule) :
    Pending (events ++ [.opened r]) (⟨events, r⟩ :: begins) := by
  have hbefore : Pending (Begin.mk events r).before begins := h
  exact .begun hbefore .nil

/-- An ending matches the last pending beginning. -/
theorem closed (h : Pending events (b :: begins)) :
    Pending (events ++ [.closed b.rule]) begins := by
  cases h with
  | begun hbefore hinner =>
      rw [List.append_assoc, List.cons_append]
      exact hbefore.append (.nested hinner .nil)

/-- Events lead as deep as there are beginnings pending. -/
theorem depth_eq (h : Pending events begins) : depth events = begins.length := by
  induction h with
  | balanced h => exact h.depth_eq_zero
  | @begun b inner begins _ hinner ih =>
      have hopen : depth (.opened b.rule :: inner) = 1 + depth inner := depth_cons _ _
      rw [depth_append, hopen, ih, hinner.depth_eq_zero, List.length_cons]
      omega

/-- Pending beginnings lie inside the trace. -/
theorem length_before_lt (h : Pending events begins) {b : Begin} (hmem : b ∈ begins) :
    b.before.length < events.length := by
  induction h with
  | balanced => cases hmem
  | @begun last inner begins _ _ ih =>
      have hlast : last.before.length <
          (last.before ++ .opened last.rule :: inner).length := by
        rw [List.length_append, List.length_cons]
        omega
      rcases List.mem_cons.1 hmem with rfl | hmem
      · exact hlast
      · exact Nat.lt_trans (ih hmem) hlast

/-- Pending beginnings are listed backwards. -/
theorem pairwise (h : Pending events begins) :
    begins.Pairwise fun later earlier => earlier.before.length < later.before.length := by
  induction h with
  | balanced => exact .nil
  | begun hbefore _ ih => exact .cons (fun _ hmem => hbefore.length_before_lt hmem) ih

/-- A beginning without a match is the last one pending, or it had no match before that one. -/
theorem eq_or_unmatched {last : Begin} (hinner : Balanced inner)
    (h : b.Unmatched (last.before ++ .opened last.rule :: inner)) :
    b = last ∨ b.Unmatched last.before := by
  obtain ⟨before, r⟩ := b
  obtain ⟨lastBefore, q⟩ := last
  obtain ⟨later, split, hlater⟩ := h
  dsimp only at split hlater ⊢
  rcases List.append_eq_append_iff.1 split with ⟨part, rfl, hpart⟩ | ⟨part, rfl, hpart⟩
  · cases part with
    | nil =>
        cases hpart
        exact .inl (by rw [List.append_nil])
    | cons e part =>
        obtain ⟨rfl, rfl⟩ := List.cons.inj hpart
        obtain ⟨inner, rest, hmatch, rfl⟩ := hinner.exists_match rfl
        exact absurd rfl (hlater inner rest hmatch)
  · cases part with
    | nil =>
        cases hpart
        exact .inl (by rw [List.append_nil])
    | cons e part =>
        obtain ⟨rfl, rfl⟩ := List.cons.inj hpart
        refine .inr ⟨part, rfl, ?_⟩
        intro inner' rest hmatch hpart'
        refine hlater inner' (rest ++ .opened q :: inner) hmatch ?_
        rw [hpart']
        exact List.append_assoc _ _ _

/-- A beginning without a match has none after another one is pending. -/
theorem unmatched_append {last : Begin} (hinner : Balanced inner) (h : b.Unmatched last.before) :
    b.Unmatched (last.before ++ .opened last.rule :: inner) := by
  obtain ⟨later, split, hlater⟩ := h
  refine ⟨later ++ .opened last.rule :: inner, by rw [split]; simp, ?_⟩
  intro inner' rest hmatch hsplit
  rcases List.append_eq_append_iff.1 hsplit with ⟨part, rfl, hpart⟩ | ⟨part, rfl, hpart⟩
  · -- the ending lies after the other beginning, but it cannot match two beginnings
    cases part with
    | nil => cases hpart
    | cons e part =>
        obtain ⟨rfl, rfl⟩ := List.cons.inj hpart
        have hbefore := hmatch.depth_nonneg rfl
        have hpart' := hinner.depth_nonneg (List.append_cons part _ rest)
        have hzero := hmatch.depth_eq_zero
        simp only [depth_append, depth_cons, depth_nil, Event.rise] at hpart' hzero
        omega
  · cases part with
    | nil => cases hpart
    | cons e part =>
        obtain ⟨rfl, -⟩ := List.cons.inj hpart
        exact hlater inner' part hmatch rfl

/-- **The pending beginnings are those that no ending matches.** -/
theorem unmatched_iff (h : Pending events begins) (b : Begin) :
    b.Unmatched events ↔ b ∈ begins := by
  induction h with
  | balanced h =>
      constructor
      · rintro ⟨later, split, hlater⟩
        obtain ⟨inner, rest, hmatch, rfl⟩ := h.exists_match split
        exact absurd rfl (hlater inner rest hmatch)
      · intro hmem
        cases hmem
  | @begun last inner begins _ hinner ih =>
      rw [List.mem_cons]
      constructor
      · intro hunmatched
        exact (eq_or_unmatched hinner hunmatched).imp_right ih.1
      · rintro (rfl | hmem)
        · exact ⟨inner, rfl, fun _ _ hmatch => hinner.ne_append_closed hmatch⟩
        · exact unmatched_append hinner (ih.2 hmem)

end Pending

/-! ### Stack discipline -/

/-- **The latest beginning** without a match. -/
structure Begin.Latest (b : Begin) (events : List Event) : Prop where
  unmatched : b.Unmatched events
  length_le : ∀ other : Begin, other.Unmatched events → other.before.length ≤ b.before.length

/-- The last pending beginning is the latest without a match. -/
theorem Pending.latest {events : List Event} {b : Begin} {begins : List Begin}
    (h : Pending events (b :: begins)) : b.Latest events where
  unmatched := (h.unmatched_iff b).2 List.mem_cons_self
  length_le := by
    intro other hother
    rcases List.mem_cons.1 ((h.unmatched_iff other).1 hother) with rfl | hmem
    · exact Nat.le_refl _
    · exact Nat.le_of_lt (List.rel_of_pairwise_cons h.pairwise hmem)

/-- **Stack discipline**: an ending names the rule of the latest beginning that has no match in
front of it. -/
def Disciplined (events : List Event) : Prop :=
  ∀ before r, before ++ [.closed r] <+: events → ∃ b : Begin, b.rule = r ∧ b.Latest before

theorem Disciplined.nil : Disciplined [] := by
  intro before r hprefix
  exact absurd (List.prefix_nil.1 hprefix) (by simp)

/-- One more event keeps the discipline if it is no ending, or names the latest beginning. -/
theorem Disciplined.concat {events : List Event} {e : Event} (h : Disciplined events)
    (hclosed : ∀ r, e = .closed r → ∃ b : Begin, b.rule = r ∧ b.Latest events) :
    Disciplined (events ++ [e]) := by
  intro before r hprefix
  rcases List.prefix_concat_iff.1 hprefix with hwhole | hshort
  · obtain ⟨rfl, hlast⟩ := List.append_inj' hwhole rfl
    exact hclosed r (List.cons.inj hlast).1.symm
  · exact h before r hshort

end SccSharp
