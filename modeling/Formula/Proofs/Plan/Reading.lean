/-
What is read off a plan.  Where the graph stands by a complete plan it
unfolds into the plan's tree (`Stands.unfolds`), and all readers come to
the readings of that.  Two things are said of plans only: a fold of a plan
with a vacancy stops for a missing operand (`Stands.foldDeep_eq`), and the
walk depth first meets a plan's places in pre-order
(`Stands.depthFirst_eq`).  The allowance is enough, because a plan with
distinct places is no larger than its graph.

The `Holds` lemmas at the end say what each reader comes to on whole
trees.
-/
import Formula.Proofs.Graph.Unfolding
import Formula.Proofs.Plan.Path

namespace Formula

namespace Plan

/-- The places of all nodes, each before those below it. -/
def preorder : Plan → List Ref
  | .vacant => []
  | .leaf r _ => [r]
  | .node r _ left right => r :: (left.preorder ++ right.preorder)

variable {p : Plan} {t : Tree}

theorem tree?_node {r : Ref} {op : Operator} {left right : Plan}
    (h : (Plan.node r op left right).tree? = some t) :
    ∃ l t', left.tree? = some l ∧ right.tree? = some t' ∧ t = .node op l t' := by
  rw [tree?] at h
  split at h
  · next l t' hl ht => exact ⟨l, t', hl, ht, (Option.some.inj h).symm⟩
  · cases h

theorem Complete.exists_tree? (h : p.Complete) : ∃ t, p.tree? = some t := by
  induction p with
  | vacant => exact h.elim
  | leaf r x => exact ⟨.leaf x, rfl⟩
  | node r op left right ihl ihr =>
      obtain ⟨l, hl⟩ := ihl h.1
      obtain ⟨t, ht⟩ := ihr h.2
      exact ⟨.node op l t, by simp only [tree?, hl, ht]⟩

theorem Open.tree?_eq_none (h : p.Open) : p.tree? = none := by
  induction p with
  | vacant => rfl
  | leaf r x => exact h.elim
  | node r op left right _ ihr =>
      obtain ⟨l, hl⟩ := h.1.exists_tree?
      simp only [tree?, hl, ihr h.2]

theorem complete_of_tree? (h : p.tree? = some t) : p.Complete := by
  induction p generalizing t with
  | vacant => cases h
  | leaf r x => trivial
  | node r op left right ihl ihr =>
      obtain ⟨l, t', hl, ht, -⟩ := tree?_node h
      exact ⟨ihl hl, ihr ht⟩

theorem length_refs_node (r : Ref) (op : Operator) (left right : Plan) :
    (Plan.node r op left right).refs.length
      = left.refs.length + right.refs.length + 1 := by
  simp only [refs, List.length_append, List.length_cons]
  omega

theorem preorder_perm_refs (p : Plan) : p.preorder.Perm p.refs := by
  induction p with
  | vacant => exact .nil
  | leaf r x => exact .refl _
  | node r op left right ihl ihr =>
      exact ((ihl.append ihr).cons r).trans List.perm_middle.symm

end Plan

-- ===================================================== by following links

namespace Graph

variable {g : Graph} {up : Option Ref} {p : Plan} {t : Tree} {n : Nat}
variable {α : Type} {leaf : Float → α} {join : Operator → α → α → α}

theorem foldDeep_value {r : Ref} {x : Float} {above : Option Ref}
    (h : g.node? r = some ⟨.value x, above⟩) :
    g.foldDeep leaf join n (some r) = .ok (leaf x) := by
  cases n with
  | zero => simp only [foldDeep, Option.bind_some, content?_of_node? h]
  | succ n => simp only [foldDeep, Option.bind_some, content?_of_node? h]

theorem foldDeep_operator {r : Ref} {op : Operator}
    {left right above : Option Ref}
    (h : g.node? r = some ⟨.operator (some op) left right, above⟩) :
    g.foldDeep leaf join (n + 1) (some r) = (do
      let x ← g.foldDeep leaf join n left
      let y ← g.foldDeep leaf join n right
      return join op x y) := by
  rw [foldDeep, Option.bind_some, content?_of_node? h]
  rfl

/-- A fold comes to that of the plan's tree, or stops at a vacancy. -/
theorem Stands.foldDeep_eq (hp : g.Stands up p) (hn : p.refs.length ≤ n) :
    g.foldDeep leaf join n p.top
      = match p.tree? with
        | some t => .ok (t.fold leaf join)
        | none => .error .missing := by
  induction p generalizing up n with
  | vacant =>
      cases n with
      | zero => rfl
      | succ n => rfl
  | leaf r x => exact foldDeep_value hp
  | node r op left right ihl ihr =>
      obtain ⟨hr, hl, ht⟩ := hp
      rw [Plan.length_refs_node] at hn
      obtain _ | n := n
      · omega
      rw [Plan.top, foldDeep_operator hr, ihl hl (by omega),
        ihr ht (by omega), Plan.tree?]
      -- the left operand comes first, also where it is what is missing
      cases left.tree? with
      | none => rfl
      | some l =>
          cases right.tree? with
          | none => rfl
          | some t => rfl

-- ============================================================= the walks

theorem Stands.operands_leaf {r : Ref} {x : Float}
    (hp : g.Stands up (.leaf r x)) : g.operands r = [] := by
  unfold operands
  rw [content?_of_node? hp]
  rfl

theorem Stands.operands_node {r : Ref} {op : Operator} {left right : Plan}
    (hp : g.Stands up (.node r op left right)) :
    g.operands r = left.top.toList ++ right.top.toList := by
  unfold operands
  rw [content?_of_node? hp.1]
  rfl

/-- The walk meets the plan in pre-order, and goes on with what waits. -/
theorem Stands.depthFirst_eq (hp : g.Stands up p) (hn : p.refs.length ≤ n)
    (stack : List Visit) :
    g.depthFirst (p.top.toList.map (⟨n, ·⟩) ++ stack)
      = p.preorder ++ g.depthFirst stack := by
  induction p generalizing up n stack with
  | vacant => rfl
  | leaf r x =>
      obtain _ | n := n
      · cases hn
      show g.depthFirst (⟨n + 1, r⟩ :: stack) = _
      rw [depthFirst, below, hp.operands_leaf]
      rfl
  | node r op left right ihl ihr =>
      rw [Plan.length_refs_node] at hn
      obtain _ | n := n
      · omega
      show g.depthFirst (⟨n + 1, r⟩ :: stack) = _
      rw [depthFirst, below, hp.operands_node, List.map_append,
        List.append_assoc, ihl hp.2.1 (by omega), ihr hp.2.2 (by omega),
        Plan.preorder, List.cons_append, List.append_assoc]

-- ========================================================== whole trees

variable {root : Option Ref}

theorem Holds.exists_root (h : g.Holds root t) :
    ∃ r, root = some r ∧ g.parent? r = none := by
  obtain ⟨p, rfl, ht, -, hp⟩ := h
  obtain ⟨r, hr⟩ :=
    Option.ne_none_iff_exists'.1 (Plan.complete_of_tree? ht).top_ne_none
  exact ⟨r, hr, hp.parent?_top hr⟩

/-- A complete plan is one way to unfold the graph. -/
theorem Stands.unfolds (hp : g.Stands up p) (ht : p.tree? = some t) :
    g.Unfolds p.top t := by
  induction p generalizing up t with
  | vacant => cases ht
  | leaf r x =>
      rw [← Option.some.inj ht]
      exact .leaf (content?_of_node? hp)
  | node r op left right ihl ihr =>
      obtain ⟨l, u, hl, hu, rfl⟩ := Plan.tree?_node ht
      exact .node (content?_of_node? hp.1) (ihl hp.2.1 hl) (ihr hp.2.2 hu)

theorem Holds.unfolds (h : g.Holds root t) : g.Unfolds root t := by
  obtain ⟨p, rfl, ht, -, hp⟩ := h
  exact hp.unfolds ht

theorem Holds.foldDeep (h : g.Holds root t) :
    g.foldDeep leaf join g.size root = .ok (t.fold leaf join) :=
  h.unfolds.foldDeep

theorem Holds.evaluateReporting (h : g.Holds root t) (log : Log) :
    (g.evaluateReporting log root).2 = .ok t.value :=
  h.unfolds.evaluateReporting log

theorem Holds.evaluateQuietly (h : g.Holds root t) (c : Overhead)
    (limit : Nat) :
    g.evaluateQuietly c limit root
      = if t.calls c ≤ limit then .ok t.value
        else .error (.fault .tooDeep) :=
  h.unfolds.evaluateQuietly c limit

theorem Holds.render (h : g.Holds root t) : g.render root = .ok t.text :=
  h.unfolds.render

theorem Holds.text (h : g.Holds root t) : g.text root = .ok t.text :=
  h.unfolds.text

theorem Holds.algebraicForm (h : g.Holds root t) (c : Overhead)
    (limit : Nat) :
    g.algebraicForm c limit root
      = if t.calls c ≤ limit
        then .ok (t.fold Algebra.ofFloat Algebra.ofOperator)
        else .error (.fault .tooDeep) :=
  h.unfolds.algebraicForm c limit

theorem Holds.sizeBelow (h : g.Holds root t) :
    g.sizeBelow root = .ok t.size :=
  h.unfolds.sizeBelow

theorem Holds.height (h : g.Holds root t) : g.height root = t.height :=
  h.unfolds.height

end Graph

end Formula
