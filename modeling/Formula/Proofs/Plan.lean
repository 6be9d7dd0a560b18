/-
Trees in a graph.  A `Tree` is a formula by itself.  A `Plan` is a tree
in which every node has a place in a graph and any part may be vacant;
a graph `Stands` by a plan when it has the planned nodes at the planned
places, each with its two operands and its parent as planned.

# Why plans

A graph is an array that is re-linked in place, and what is said of it
afterwards is said place by place.  A plan is the same information as a
tree, on which one can recurse.  The two meet in `Stands`: a graph that
changes outside a plan's places still stands by the plan
(`Stands.congr`), so a proof about an operation on the graph is a proof
about the one or two places that it touches.

# The readings of a plan

All of them go through the tree from left to right or from the top down:

- `refs`: the places of all nodes, as a formula is written;
- `operators`: the places of the operator nodes, in the same order;
- `edge`: the places met on the way down along right operands;
- `spine`: the operators among those, each with its place.

The builder's two states are the two shapes a plan can have: `Complete`
has no vacancy, `Open` has one, at the lower end of the edge.
-/
import Formula.Proofs.Graph.Links
import Mathlib.Data.List.Find

namespace Formula

/-- A formula. -/
inductive Tree where
  | leaf (x : Float)
  | node (op : Operator) (left right : Tree)

/-- A tree with the place of every node, parts of which may be vacant. -/
inductive Plan where
  | vacant
  | leaf (r : Ref) (x : Float)
  | node (r : Ref) (op : Operator) (left right : Plan)

namespace Plan

-- ========================================================= the readings

/-- The place of the top node. -/
def top : Plan → Option Ref
  | .vacant => none
  | .leaf r _ => some r
  | .node r _ _ _ => some r

/-- The places of all nodes, from left to right. -/
def refs : Plan → List Ref
  | .vacant => []
  | .leaf r _ => [r]
  | .node r _ left right => left.refs ++ r :: right.refs

/-- The places of the operator nodes, from left to right. -/
def operators : Plan → List Ref
  | .vacant => []
  | .leaf _ _ => []
  | .node r _ left right => left.operators ++ r :: right.operators

/-- The places on the way down along right operands. -/
def edge : Plan → List Ref
  | .vacant => []
  | .leaf r _ => [r]
  | .node r _ _ right => r :: right.edge

/-- The operators on the way down along right operands. -/
def spine : Plan → List (Ref × Operator)
  | .node r op _ right => (r, op) :: right.spine
  | _ => []

/-- The formula, if nothing is vacant. -/
def tree? : Plan → Option Tree
  | .vacant => none
  | .leaf _ x => some (.leaf x)
  | .node _ op left right =>
      match left.tree?, right.tree? with
      | some l, some t => some (.node op l t)
      | _, _ => none

/-- Nothing is vacant. -/
def Complete : Plan → Prop
  | .vacant => False
  | .leaf _ _ => True
  | .node _ _ left right => left.Complete ∧ right.Complete

/-- The lower end of the edge is vacant, and nothing else is. -/
def Open : Plan → Prop
  | .vacant => True
  | .leaf _ _ => False
  | .node _ _ left right => left.Complete ∧ right.Open

-- ================================================ how the readings agree

theorem mem_refs_node {r s : Ref} {op : Operator} {left right : Plan} :
    r ∈ (Plan.node s op left right).refs
      ↔ r ∈ left.refs ∨ r = s ∨ r ∈ right.refs := by
  rw [refs, List.mem_append, List.mem_cons]

theorem mem_operators_node {r s : Ref} {op : Operator} {left right : Plan} :
    r ∈ (Plan.node s op left right).operators
      ↔ r ∈ left.operators ∨ r = s ∨ r ∈ right.operators := by
  rw [operators, List.mem_append, List.mem_cons]

theorem notMem_refs_node {r s : Ref} {op : Operator} {left right : Plan}
    (h : r ∉ (Plan.node s op left right).refs) :
    r ∉ left.refs ∧ r ≠ s ∧ r ∉ right.refs := by
  rw [mem_refs_node] at h
  exact ⟨fun hl => h (Or.inl hl), fun hs => h (Or.inr (Or.inl hs)),
    fun hr => h (Or.inr (Or.inr hr))⟩

theorem mem_refs_of_top {p : Plan} {r : Ref} (h : p.top = some r) :
    r ∈ p.refs := by
  cases p with
  | vacant => cases h
  | leaf s x =>
      injection h with h
      subst h
      exact List.mem_singleton_self _
  | node s op left right =>
      injection h with h
      exact mem_refs_node.2 (Or.inr (Or.inl h.symm))

theorem exists_top_of_mem {p : Plan} {r : Ref} (h : r ∈ p.refs) :
    ∃ s, p.top = some s := by
  cases p with
  | vacant => cases h
  | leaf s x => exact ⟨s, rfl⟩
  | node s op left right => exact ⟨s, rfl⟩

theorem eq_vacant_of_top {p : Plan} (h : p.top = none) : p = .vacant := by
  cases p with
  | vacant => rfl
  | leaf s x => cases h
  | node s op left right => cases h

theorem Complete.top_ne_none {p : Plan} (h : p.Complete) : p.top ≠ none := by
  intro htop
  rw [eq_vacant_of_top htop] at h
  exact h

theorem edge_subset_refs (p : Plan) : p.edge ⊆ p.refs := by
  induction p with
  | vacant => exact List.Subset.refl _
  | leaf s x => exact List.Subset.refl _
  | node s op left right _ ihr =>
      exact List.subset_append_of_subset_right _
        (List.cons_subset_cons s ihr)

theorem operators_subset_refs (p : Plan) : p.operators ⊆ p.refs := by
  induction p with
  | vacant => exact List.Subset.refl _
  | leaf s x => exact List.nil_subset _
  | node s op left right ihl ihr =>
      intro r hr
      rcases mem_operators_node.1 hr with hr | rfl | hr
      · exact mem_refs_node.2 (Or.inl (ihl hr))
      · exact mem_refs_node.2 (Or.inr (Or.inl rfl))
      · exact mem_refs_node.2 (Or.inr (Or.inr (ihr hr)))

/-- Only a vacant plan has an empty edge. -/
theorem edge_getLast?_isSome {p : Plan} (h : p.top ≠ none) :
    ∃ r, p.edge.getLast? = some r := by
  cases p with
  | vacant => exact absurd rfl h
  | leaf s x => exact ⟨s, rfl⟩
  | node s op left right => exact ⟨_, List.getLast?_cons⟩

/-- The parts of a plan whose places are distinct have distinct places,
and none in common. -/
theorem nodup_node {r : Ref} {op : Operator} {left right : Plan}
    (h : (Plan.node r op left right).refs.Nodup) :
    left.refs.Nodup ∧ right.refs.Nodup ∧ r ∉ left.refs ∧ r ∉ right.refs
      ∧ ∀ s ∈ left.refs, s ∉ right.refs := by
  obtain ⟨hl, hr, hd⟩ := List.nodup_append.1 h
  obtain ⟨hrr, hr⟩ := List.nodup_cons.1 hr
  refine ⟨hl, hr, ?_, hrr, ?_⟩
  · intro hmem
    exact hd r hmem r (List.mem_cons_self ..) rfl
  · intro s hs hmem
    exact hd s hs s (List.mem_cons_of_mem _ hmem) rfl

/-- The operators of a plan are distinct where its places are. -/
theorem operators_nodup {p : Plan} (hd : p.refs.Nodup) : p.operators.Nodup := by
  induction p with
  | vacant => exact List.nodup_nil
  | leaf r x => exact List.nodup_nil
  | node r op left right ihl ihr =>
      obtain ⟨hdl, hdr, hrl, hrr, hdisj⟩ := nodup_node hd
      have hsub := operators_subset_refs left
      refine List.nodup_append.2 ⟨ihl hdl, List.nodup_cons.2 ⟨?_, ihr hdr⟩, ?_⟩
      · intro hmem
        exact hrr (operators_subset_refs right hmem)
      · intro a ha b hb
        rcases List.mem_cons.1 hb with rfl | hb
        · exact ne_of_mem_of_not_mem (hsub ha) hrl
        · intro hab
          subst hab
          exact hdisj a (hsub ha) (operators_subset_refs right hb)

/-- The operators that lie on the edge are the spine, from the top
down. -/
theorem operators_filter_edge {p : Plan} (h : p.refs.Nodup) :
    p.operators.filter (· ∈ p.edge) = p.spine.map (·.1) := by
  induction p with
  | vacant => rfl
  | leaf s x => rfl
  | node s op left right _ ihr =>
      obtain ⟨-, hnr, hsl, hsr, hdisj⟩ := nodup_node h
      have hleft : left.operators.filter (· ∈ s :: right.edge) = [] := by
        rw [List.filter_eq_nil_iff]
        intro r hr hmem
        have hrl := operators_subset_refs left hr
        rcases List.mem_cons.1 (of_decide_eq_true hmem) with rfl | hmem
        · exact hsl hrl
        · exact hdisj r hrl (edge_subset_refs right hmem)
      have hright : right.operators.filter (· ∈ s :: right.edge)
          = right.operators.filter (· ∈ right.edge) := by
        refine List.filter_congr fun r hr => ?_
        have hne : r ≠ s :=
          ne_of_mem_of_not_mem (operators_subset_refs right hr) hsr
        rw [decide_eq_decide, List.mem_cons]
        exact ⟨fun hmem => hmem.resolve_left hne, Or.inr⟩
      show (left.operators ++ s :: right.operators).filter
        (· ∈ s :: right.edge) = s :: right.spine.map (·.1)
      rw [List.filter_append, hleft, List.nil_append,
        List.filter_cons_of_pos (by simp), hright, ihr hnr]

end Plan

-- ============================================================= standing

namespace Graph

/-- The graph has the nodes of the plan, the top one below `up` and every
other one below the node that the plan puts above it. -/
def Stands (g : Graph) : Option Ref → Plan → Prop
  | _, .vacant => True
  | up, .leaf r x => g.node? r = some ⟨.value x, up⟩
  | up, .node r op left right =>
      g.node? r = some ⟨.operator (some op) left.top right.top, up⟩
        ∧ g.Stands (some r) left ∧ g.Stands (some r) right

/-- The graph below a place is a copy of the tree: distinct nodes, both
operands on every operator node, every node's parent the operator node
above it, and no parent at the top. -/
def Holds (g : Graph) (root : Option Ref) (t : Tree) : Prop :=
  ∃ p : Plan, p.top = root ∧ p.tree? = some t ∧ p.refs.Nodup
    ∧ g.Stands none p

variable {g g' : Graph} {up : Option Ref} {p : Plan}

/-- A graph that has the same nodes at a plan's places stands by it
too. -/
theorem Stands.congr (hp : g.Stands up p)
    (h : ∀ r ∈ p.refs, g'.node? r = g.node? r) : g'.Stands up p := by
  induction p generalizing up with
  | vacant => trivial
  | leaf r x => exact (h r (List.mem_singleton_self r)).trans hp
  | node r op left right ihl ihr =>
      obtain ⟨hr, hl, ht⟩ := hp
      refine ⟨(h r ?_).trans hr, ihl hl ?_, ihr ht ?_⟩
      · exact Plan.mem_refs_node.2 (Or.inr (Or.inl rfl))
      · intro s hs
        exact h s (Plan.mem_refs_node.2 (Or.inl hs))
      · intro s hs
        exact h s (Plan.mem_refs_node.2 (Or.inr (Or.inr hs)))

/-- Every planned place holds a node. -/
theorem Stands.lt_size (hp : g.Stands up p) {r : Ref} (hr : r ∈ p.refs) :
    r < g.size := by
  induction p generalizing up with
  | vacant => cases hr
  | leaf s x =>
      rw [List.mem_singleton.1 hr]
      exact lt_size_of_node? hp
  | node s op left right ihl ihr =>
      obtain ⟨hs, hl, ht⟩ := hp
      rcases Plan.mem_refs_node.1 hr with hr | rfl | hr
      · exact ihl hl hr
      · exact lt_size_of_node? hs
      · exact ihr ht hr

/-- The top node's parent is what the plan stands below. -/
theorem Stands.parent?_top (hp : g.Stands up p) {r : Ref}
    (hr : p.top = some r) : g.parent? r = up := by
  cases p with
  | vacant => cases hr
  | leaf s x =>
      injection hr with hr
      subst hr
      exact parent?_of_node? hp
  | node s op left right =>
      injection hr with hr
      subst hr
      exact parent?_of_node? hp.1

/-- An operator on the spine is the operator of its node. -/
theorem Stands.operator?_spine (hp : g.Stands up p) {r : Ref}
    {op : Operator} (h : (r, op) ∈ p.spine) : g.operator? r = some op := by
  induction p generalizing up with
  | vacant => cases h
  | leaf s x => cases h
  | node s o left right _ ihr =>
      obtain ⟨hs, -, ht⟩ := hp
      rcases List.mem_cons.1 h with h | h
      · injection h with h₁ h₂
        subst h₁ h₂
        exact operator?_of_node? hs
      · exact ihr ht h

/-- Searching the places of the spine for an operator is searching its
operators. -/
theorem Stands.find?_spine (hp : g.Stands up p) (binds : Operator → Bool) :
    (p.spine.map (·.1)).find? (fun r => (g.operator? r).any binds)
      = (p.spine.find? (binds ·.2)).map (·.1) := by
  rw [List.find?_map]
  congr 1
  refine List.find?_congr fun ⟨r, o⟩ hmem => ?_
  show (g.operator? r).any binds = binds o
  rw [hp.operator?_spine hmem]
  rfl

/-- A graph stands by one plan at most below a place. -/
theorem Stands.unique {up' : Option Ref} {q : Plan} (hp : g.Stands up p)
    (hq : g.Stands up' q) (htop : p.top = q.top) : p = q := by
  induction p generalizing up up' q with
  | vacant => exact (Plan.eq_vacant_of_top htop.symm).symm
  | leaf r x =>
      cases q with
      | vacant => cases htop
      | leaf s y =>
          injection htop with htop
          subst htop
          have hnode := hp.symm.trans hq
          simp only [Option.some.injEq, Node.mk.injEq, Content.value.injEq]
            at hnode
          rw [hnode.1]
      | node s op left right =>
          injection htop with htop
          subst htop
          have hnode := hp.symm.trans hq.1
          simp at hnode
  | node r op left right ihl ihr =>
      obtain ⟨hr, hl, ht⟩ := hp
      cases q with
      | vacant => cases htop
      | leaf s y =>
          injection htop with htop
          subst htop
          have hnode := hr.symm.trans hq
          simp at hnode
      | node s o left' right' =>
          injection htop with htop
          subst htop
          obtain ⟨hs, hl', ht'⟩ := hq
          have hnode := hr.symm.trans hs
          simp only [Option.some.injEq, Node.mk.injEq,
            Content.operator.injEq] at hnode
          obtain ⟨⟨hop, hleft, hright⟩, -⟩ := hnode
          rw [hop, ihl hl hl' hleft, ihr ht ht' hright]

/-- It holds one tree at most below a place. -/
theorem Holds.iff_eq {root : Option Ref} {t t' : Tree} (h : g.Holds root t) :
    g.Holds root t' ↔ t' = t := by
  constructor
  · intro h'
    obtain ⟨p, hp, ht, -, hstands⟩ := h
    obtain ⟨q, hq, ht', -, hstands'⟩ := h'
    have heq := hstands.unique hstands' (hp.trans hq.symm)
    rw [heq, ht'] at ht
    exact Option.some.inj ht
  · intro heq
    rw [heq]
    exact h

/-- A plan with distinct places has no more of them than the graph. -/
theorem Stands.length_le_size (hp : g.Stands up p) (hd : p.refs.Nodup) :
    p.refs.length ≤ g.size := by
  have hsub : p.refs ⊆ List.range g.size := fun r hr =>
    List.mem_range.2 (hp.lt_size hr)
  have hlen := hd.length_le_of_subset hsub
  rwa [List.length_range] at hlen

end Graph

end Formula
