import SccSharp.Feed

/-!
# What a feed gives

Drawn from again and again, a feed gives tokens and then the sentinel or a failure. `Feed.Gives`
says which, by what single draws give; every feed gives something (`exists_gives`), and draining it
collects just that (`Gives.drain_ok`, `Gives.drain_error`).

## Main Definitions

* `Feed.Gives` — the tokens of a feed, and the sentinel or the failure after them

## Main Statements

* `Feed.exists_gives` — every feed comes to an end
* `Feed.Gives.drain_ok`, `Feed.Gives.drain_error` — draining collects what a feed gives
-/

namespace SccSharp

/-! ### Queues -/

namespace TokenQueue

variable {t : Token} {rest : List Token} {lastLine : Int}

/-- A sentinel stays in a queue. -/
theorem feed_draw_of_eof (h : t.kind = .eof) :
    Feed.draw (⟨t :: rest, lastLine⟩ : TokenQueue) =
      (.ok t, (⟨t :: rest, lastLine⟩ : TokenQueue)) := by
  have hdraw : draw ⟨t :: rest, lastLine⟩ = (t, ⟨t :: rest, lastLine⟩) := if_pos h
  show (Except.ok (draw _).1, (draw _).2) = _
  rw [hdraw]

/-- Any other token is taken from it. -/
theorem feed_draw_of_ne (h : t.kind ≠ .eof) :
    Feed.draw (⟨t :: rest, lastLine⟩ : TokenQueue) =
      (.ok t, (⟨rest, t.line⟩ : TokenQueue)) := by
  have hdraw : draw ⟨t :: rest, lastLine⟩ = (t, ⟨rest, t.line⟩) := if_neg h
  show (Except.ok (draw _).1, (draw _).2) = _
  rw [hdraw]

end TokenQueue

namespace Feed

variable {σ ε : Type} [Feed σ ε]

/-- **What a feed gives**: tokens, none of them the sentinel, and then the sentinel or a failure. -/
inductive Gives : σ → List Token → Except ε Token → Prop where
  | sentinel {s s' : σ} {t : Token} : draw s = (.ok t, s') → t.kind = .eof → Gives s [] (.ok t)
  | failure {s s' : σ} {e : ε} : draw s = (.error e, s') → Gives s [] (.error e)
  | token {s s' : σ} {t : Token} {tokens : List Token} {outcome : Except ε Token} :
      draw s = (.ok t, s') → t.kind ≠ .eof → Gives s' tokens outcome → Gives s (t :: tokens) outcome

/-! ### Draining -/

/-- A drain stops at a failure. -/
theorem drain_of_error {s s' : σ} {e : ε} (taken : Array Token) (h : draw s = (.error e, s')) :
    drain s taken = (taken, some e, s') := by
  rw [drain]
  split
  · next hdraw =>
      rw [h] at hdraw
      cases hdraw
      rfl
  · next hdraw =>
      rw [h] at hdraw
      cases hdraw

/-- A drain takes the sentinel and stops. -/
theorem drain_of_eof {s s' : σ} {t : Token} (taken : Array Token) (h : draw s = (.ok t, s'))
    (hlast : t.kind = .eof) : drain s taken = (taken.push t, none, s') := by
  rw [drain]
  split
  · next hdraw =>
      rw [h] at hdraw
      cases hdraw
  · next hdraw =>
      rw [h] at hdraw
      cases hdraw
      rw [dif_pos hlast]

/-- A drain takes any other token and goes on. -/
theorem drain_of_token {s s' : σ} {t : Token} (taken : Array Token) (h : draw s = (.ok t, s'))
    (hmore : t.kind ≠ .eof) : drain s taken = drain s' (taken.push t) := by
  rw [drain]
  split
  · next hdraw =>
      rw [h] at hdraw
      cases hdraw
  · next hdraw =>
      rw [h] at hdraw
      cases hdraw
      rw [dif_neg hmore]

/-- Every feed comes to an end. -/
theorem exists_gives (s : σ) : ∃ tokens outcome, Gives s tokens outcome := by
  cases hdraw : draw s with
  | mk outcome s' =>
      cases outcome with
      | error e => exact ⟨[], .error e, .failure hdraw⟩
      | ok t =>
          by_cases hlast : t.kind = .eof
          · exact ⟨[], .ok t, .sentinel hdraw hlast⟩
          · have hsmaller : size s' < size s := by
              have := size_draw_lt s t (by rw [hdraw]) hlast
              rwa [hdraw] at this
            obtain ⟨tokens, outcome, hgives⟩ := exists_gives s'
            exact ⟨t :: tokens, outcome, .token hdraw hlast hgives⟩
termination_by size s

namespace Gives

variable {s : σ} {tokens : List Token} {outcome : Except ε Token}

/-- The sentinel is none of the tokens in front of the end. -/
theorem kind_ne_eof (h : Gives s tokens outcome) : ∀ t ∈ tokens, t.kind ≠ .eof := by
  induction h with
  | sentinel | failure => exact List.forall_mem_nil _
  | token _ hmore _ ih => exact List.forall_mem_cons.2 ⟨hmore, ih⟩

/-- A feed that ends gives the sentinel. -/
theorem kind_eof {t : Token} (h : Gives s tokens (.ok t)) : t.kind = .eof := by
  generalize houtcome : (Except.ok t : Except ε Token) = outcome at h
  induction h with
  | sentinel _ hlast =>
      cases houtcome
      exact hlast
  | failure => cases houtcome
  | token _ _ _ ih => exact ih houtcome

/-- On the way to a failure, what is drawn is the next token given. -/
theorem of_draw_ok {s' : σ} {t : Token} {e : ε} (h : Gives s tokens (.error e))
    (hdraw : draw s = (.ok t, s')) :
    ∃ more, tokens = t :: more ∧ t.kind ≠ .eof ∧ Gives s' more (.error e) := by
  cases h with
  | failure hdraw' =>
      rw [hdraw] at hdraw'
      cases hdraw'
  | token hdraw' hmore hgives =>
      rw [hdraw] at hdraw'
      cases hdraw'
      exact ⟨_, rfl, hmore, hgives⟩

/-- A failure comes after all tokens given. -/
theorem of_draw_error {s' : σ} {e e' : ε} (h : Gives s tokens (.error e))
    (hdraw : draw s = (.error e', s')) : tokens = [] ∧ e' = e := by
  cases h with
  | failure hdraw' =>
      rw [hdraw] at hdraw'
      cases hdraw'
      exact ⟨rfl, rfl⟩
  | token hdraw' =>
      rw [hdraw] at hdraw'
      cases hdraw'

/-- **Draining collects what a feed gives**, behind the tokens taken before. -/
theorem exists_drain (h : Gives s tokens outcome) (taken : List Token) :
    ∃ rest, drain s taken.toArray = match outcome with
      | .ok t => ((taken ++ tokens ++ [t]).toArray, none, rest)
      | .error e => ((taken ++ tokens).toArray, some e, rest) := by
  induction h generalizing taken with
  | sentinel hdraw hlast =>
      have hdrain := drain_of_eof taken.toArray hdraw hlast
      rw [List.push_toArray] at hdrain
      rw [List.append_nil]
      exact ⟨_, hdrain⟩
  | failure hdraw =>
      rw [List.append_nil]
      exact ⟨_, drain_of_error _ hdraw⟩
  | @token s s' head tokens outcome hdraw hmore _ ih =>
      obtain ⟨rest, hrest⟩ := ih (taken ++ [head])
      refine ⟨rest, (drain_of_token _ hdraw hmore).trans ?_⟩
      rw [List.push_toArray, hrest, List.append_assoc taken, List.singleton_append]

/-- A feed that ends is drained of its tokens and the sentinel. -/
theorem drain_ok {t : Token} (h : Gives s tokens (.ok t)) :
    ∃ rest, drain s = ((tokens ++ [t]).toArray, none, rest) :=
  h.exists_drain []

/-- A feed that fails is drained of its tokens up to the failure. -/
theorem drain_error {e : ε} (h : Gives s tokens (.error e)) :
    ∃ rest, drain s = (tokens.toArray, some e, rest) :=
  h.exists_drain []

end Gives

end Feed

end SccSharp
