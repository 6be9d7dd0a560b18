/-
Plans with other places.  Where a node is in its graph is an accident of
what was there before, so two trees that differ in that alone are the same
tree.  `Plan.rename f` moves a plan to the places that `f` gives, and every
reading of a plan goes along.

What is done to a plan can as well be done to its renaming: a plan grows
at the same point wherever it is (`rename_grow`), because where it grows
is a matter of its shape and of its operators' ranks.
-/
import Formula.Proofs.Plan.Item

namespace Formula

/-- The node with its links moved. -/
def Node.rename (f : Ref → Ref) (n : Node) : Node where
  content :=
    match n.content with
    | .operator op left right => .operator op (left.map f) (right.map f)
    | c => c
  parent := n.parent.map f

/-- The builder with what it remembers moved. -/
def Builder.rename (f : Ref → Ref) (b : Builder) : Builder :=
  { b with
    head := b.head.map f
    prev := b.prev.map f
    history := b.history.map f }

namespace Plan

/-- The plan with its places moved. -/
def rename (f : Ref → Ref) : Plan → Plan
  | .vacant => .vacant
  | .leaf r x => .leaf (f r) x
  | .node r op left right => .node (f r) op (left.rename f) (right.rename f)

variable {f f' : Ref → Ref} {n : Ref} {p : Plan}

-- ========================================================= the readings

@[simp] theorem top_rename (f : Ref → Ref) (p : Plan) :
    (p.rename f).top = p.top.map f := by
  cases p <;> rfl

@[simp] theorem refs_rename (f : Ref → Ref) (p : Plan) :
    (p.rename f).refs = p.refs.map f := by
  induction p with
  | vacant => rfl
  | leaf r x => rfl
  | node r op left right ihl ihr => simp [rename, refs, ihl, ihr]

@[simp] theorem operators_rename (f : Ref → Ref) (p : Plan) :
    (p.rename f).operators = p.operators.map f := by
  induction p with
  | vacant => rfl
  | leaf r x => rfl
  | node r op left right ihl ihr => simp [rename, operators, ihl, ihr]

@[simp] theorem edge_rename (f : Ref → Ref) (p : Plan) :
    (p.rename f).edge = p.edge.map f := by
  induction p with
  | vacant => rfl
  | leaf r x => rfl
  | node r op left right _ ihr => simp [rename, edge, ihr]

@[simp] theorem spine_rename (f : Ref → Ref) (p : Plan) :
    (p.rename f).spine = p.spine.map (Prod.map f id) := by
  induction p with
  | vacant => rfl
  | leaf r x => rfl
  | node r op left right _ ihr => simp [rename, spine, ihr]

/-- Only a plan's own places matter. -/
theorem rename_congr (h : ∀ r ∈ p.refs, f r = f' r) :
    p.rename f = p.rename f' := by
  induction p with
  | vacant => rfl
  | leaf r x => rw [rename, rename, h r (List.mem_singleton_self r)]
  | node r op left right ihl ihr =>
      rw [rename, rename, h r (mem_refs_node.2 (.inr (.inl rfl))),
        ihl fun s hs => h s (mem_refs_node.2 (.inl hs)),
        ihr fun s hs => h s (mem_refs_node.2 (.inr (.inr hs)))]

-- =============================================================== growing

/-- A plan grows at the same point wherever it is. -/
theorem rename_grow (f : Ref → Ref) (n : Ref) (item : Item) (p : Plan) :
    (p.grow n item).rename f = (p.rename f).grow (f n) item := by
  induction p with
  | vacant => cases item <;> rfl
  | leaf r x => cases item <;> rfl
  | node r o left right _ ihr =>
      cases item with
      | number x => exact congrArg (Plan.node (f r) o (left.rename f)) ihr
      | operator op =>
          by_cases hle : op.rank ≤ o.rank
          · simp [grow, splice, rename, hle]
          · simp only [grow, splice, rename, hle, if_false]
            exact congrArg (Plan.node (f r) o (left.rename f)) ihr

/-- A plan that grows at one place and its renaming that grows at another
are still a plan and its renaming. -/
theorem rename_update_grow {m : Ref} (hn : n ∉ p.refs) (item : Item) :
    (p.grow n item).rename (Function.update f n m)
      = (p.rename f).grow m item := by
  have hsame : p.rename (Function.update f n m) = p.rename f :=
    rename_congr fun r hr =>
      Function.update_of_ne (ne_of_mem_of_not_mem hr hn) m f
  rw [rename_grow, hsame, Function.update_self]

end Plan

-- ============================================================= standing

namespace Graph

variable {f : Ref → Ref} {g g' : Graph} {up up' : Option Ref} {p : Plan}

/-- Where one graph stands by a plan and another by its renaming, the
nodes are the same up to their places. -/
theorem Stands.node?_rename (hp : g.Stands up p)
    (hp' : g'.Stands (up.map f) (p.rename f)) {r : Ref} (hr : r ∈ p.refs) :
    ∃ node, g.node? r = some node ∧ g'.node? (f r) = some (node.rename f) := by
  induction p generalizing up with
  | vacant => cases hr
  | leaf s x =>
      rw [List.mem_singleton.1 hr]
      exact ⟨_, hp, hp'⟩
  | node s op left right ihl ihr =>
      obtain ⟨hs, hl, ht⟩ := hp
      obtain ⟨hs', hl', ht'⟩ := hp'
      rcases Plan.mem_refs_node.1 hr with hr | rfl | hr
      · exact ihl hl hl' hr
      · rw [Plan.top_rename, Plan.top_rename] at hs'
        exact ⟨_, hs, hs'⟩
      · exact ihr ht ht' hr

end Graph

namespace Builder

variable {f : Ref → Ref} {g g' : Graph} {b b' : Builder} {p q : Plan}

/-- A builder has grown one plan only. -/
theorem Grown.unique (h : Grown g b p) (h' : Grown g b q) : p = q :=
  h.stands.unique h'.stands (h.head.symm.trans h'.head)

/-- What a builder remembers that has grown a plan's renaming. -/
theorem Grown.eq_rename (h : Grown g b p) (h' : Grown g' b' (p.rename f))
    (hf : b'.finalized = b.finalized) (he : b'.expected = b.expected)
    (hposition : b'.position = b.position) : b' = b.rename f := by
  have hhead := h'.head
  have hprev := h'.prev
  have hhistory := h'.history
  rw [Plan.top_rename, ← h.head] at hhead
  rw [Plan.edge_rename, List.getLast?_map, ← h.prev] at hprev
  rw [Plan.operators_rename, ← h.history] at hhistory
  obtain ⟨expected, finalized, head, prev, history, position⟩ := b'
  simp only at hf he hposition hhead hprev hhistory
  subst hf he hposition hhead hprev hhistory
  rfl

end Builder

end Formula
