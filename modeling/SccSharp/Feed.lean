import SccSharp.Token

/-!
# Token feeds

Anything tokens can be drawn from, one at a time. A draw may fail; it then leaves a feed that can
be drawn from again.

Every feed promises to run dry: a draw that gives a token other than the sentinel makes the feed
smaller, and no draw makes it larger. That promise is what lets a consumer of a feed recurse on it.

## Main Definitions

* `Feed` — the class of feeds
* `Feed.drain` — the tokens up to the sentinel
* `TokenQueue` — the feed of a given list of tokens
* `Metered` — a feed that remembers its draws
-/

namespace SccSharp

/-- A state that tokens are drawn from; `ε` is what a failed draw gives. -/
class Feed (σ : Type) (ε : outParam Type) where
  /-- The next token or the failure, and the feed after it. -/
  draw : σ → Except ε Token × σ
  /-- A bound on the tokens still to come before the sentinel. -/
  size : σ → Nat
  /-- No draw makes a feed larger. -/
  size_draw_le (s : σ) : size (draw s).2 ≤ size s
  /-- A token other than the sentinel makes a feed smaller. -/
  size_draw_lt (s : σ) (t : Token) (drawn : (draw s).1 = .ok t) (more : t.kind ≠ .eof) :
    size (draw s).2 < size s

namespace Feed

variable {σ ε : Type} [Feed σ ε]

/-- Draws until the sentinel or a failure; `taken` are the tokens drawn before. The sentinel is
kept as the last token. -/
def drain (s : σ) (taken : Array Token := #[]) : Array Token × Option ε × σ :=
  match _drawn : draw s with
  | (.error e, rest) => (taken, some e, rest)
  | (.ok t, rest) =>
      if _last : t.kind = .eof then (taken.push t, none, rest) else drain rest (taken.push t)
termination_by size s
decreasing_by
  have smaller := size_draw_lt s t (by rw [_drawn]) _last
  rwa [_drawn] at smaller

end Feed

/-! ### Given tokens -/

/-- **A list of tokens as a feed.** A sentinel in the list, or the end of the list, is given for
ever; at the end of the list it stands on the line of the token before it. -/
structure TokenQueue where
  tokens : List Token
  lastLine : Int := 1
  deriving DecidableEq, Repr

/-- The next token of a queue. A sentinel stays in the queue. -/
def TokenQueue.draw (q : TokenQueue) : Token × TokenQueue :=
  match q.tokens with
  | [] => (.endOfInput q.lastLine, q)
  | t :: rest => if t.kind = .eof then (t, q) else (t, ⟨rest, t.line⟩)

instance : Feed TokenQueue Empty where
  draw q := (.ok q.draw.1, q.draw.2)
  size q := q.tokens.length
  size_draw_le q := by
    unfold TokenQueue.draw
    split
    · exact Nat.le_refl _
    · split <;> simp_all
  size_draw_lt q t drawn more := by
    unfold TokenQueue.draw at drawn ⊢
    split at drawn
    · cases drawn
      exact absurd rfl more
    · next head rest heq =>
        split at drawn
        · cases drawn
          exact absurd ‹_› more
        · next hne => simp [heq, hne]

/-! ### Counted draws -/

/-- A feed with the outcomes of its draws so far, in order. -/
structure Metered (σ ε : Type) where
  feed : σ
  draws : Array (Except ε Token) := #[]

instance {σ ε : Type} [Feed σ ε] : Feed (Metered σ ε) ε where
  draw m := ((Feed.draw m.feed).1, ⟨(Feed.draw m.feed).2, m.draws.push (Feed.draw m.feed).1⟩)
  size m := Feed.size m.feed
  size_draw_le m := Feed.size_draw_le m.feed
  size_draw_lt m := Feed.size_draw_lt m.feed

end SccSharp
