/-
What each operation on a graph does to the node at a place.  A proof
about a re-linked graph looks a place up with `node?` and rewrites with
the equations here; none of them unfolds an operation again.

# The shape of the equations

An operation touches at most two places.  For each there is one equation
that says what becomes of the node there, and one more that says that
every other place keeps its node.  The other views of a place (its
content, its parent, its operands, its operator) follow from the node,
by the `…_of_node?` lemmas, or from its content alone, by the
`…_of_content?` lemmas.
-/
import Formula.Graph.Basic

namespace Formula.Graph

variable {g : Graph} {r : Ref}

-- ============================================================ the views

/-- A place that holds a node is one of the graph's places. -/
theorem lt_size_of_node? {n : Node} (h : g.node? r = some n) : r < g.size := by
  obtain ⟨hlt, -⟩ := Array.getElem?_eq_some_iff.1 h
  exact hlt

theorem content?_of_node? {n : Node} (h : g.node? r = some n) :
    g.content? r = some n.content := by
  unfold content?
  rw [h]
  rfl

theorem parent?_of_node? {n : Node} (h : g.node? r = some n) :
    g.parent? r = n.parent := by
  unfold parent?
  rw [h]
  rfl

theorem operand?_of_node? {n : Node} (h : g.node? r = some n) (side : Side) :
    g.operand? r side = n.content.operand side := by
  unfold operand?
  rw [content?_of_node? h]
  rfl

theorem holder_of_node? {n : Node} (h : g.node? r = some n) :
    g.holder (some r) = n.content.holder := by
  unfold holder
  rw [Option.bind_some, content?_of_node? h]

theorem operator?_of_node? {op : Option Operator} {left right up : Option Ref}
    (h : g.node? r = some ⟨.operator op left right, up⟩) :
    g.operator? r = op := by
  unfold operator?
  rw [content?_of_node? h]

theorem lt_size_of_content? {c : Content} (h : g.content? r = some c) :
    r < g.size := by
  obtain ⟨node, hnode, -⟩ := Option.map_eq_some_iff.1 h
  exact lt_size_of_node? hnode

theorem holder_of_content? {c : Content} (h : g.content? r = some c) :
    g.holder (some r) = c.holder := by
  rw [holder, Option.bind_some, h]

theorem operand?_eq_of_content? {c : Content} (h : g.content? r = some c)
    (side : Side) : g.operand? r side = c.operand side := by
  rw [operand?, h, Option.bind_some]

theorem lt_size_of_operand? {c : Ref} {side : Side}
    (h : g.operand? r side = some c) : r < g.size := by
  obtain ⟨content, hcontent, -⟩ := Option.bind_eq_some_iff.1 h
  exact lt_size_of_content? hcontent

/-- Only an operator node has operands. -/
theorem exists_operator_of_operand? {c : Ref} {side : Side}
    (h : g.operand? r side = some c) :
    ∃ op left right, g.content? r = some (.operator op left right) := by
  obtain ⟨content, hcontent, hside⟩ := Option.bind_eq_some_iff.1 h
  cases content with
  | value x => cases side <;> cases hside
  | foreign => cases side <;> cases hside
  | operator op left right => exact ⟨op, left, right, hcontent⟩

theorem operands_of_content? {c : Content} (h : g.content? r = some c) :
    g.operands r = c.operands := by
  rw [operands, h]

theorem mem_operands_iff {c : Ref} :
    c ∈ g.operands r ↔ ∃ side, g.operand? r side = some c := by
  unfold operands operand?
  cases g.content? r with
  | none => simp
  | some content =>
      simp only [Content.operands, List.mem_append, Option.mem_toList,
        Option.bind_some]
      constructor
      · rintro (h | h)
        · exact ⟨.left, h⟩
        · exact ⟨.right, h⟩
      · rintro ⟨_ | _, h⟩
        · exact Or.inl h
        · exact Or.inr h

-- ============================================================== adding

theorem size_add (g : Graph) (c : Content) : (g.add c).1.size = g.size + 1 :=
  Array.size_push _

/-- The new node stands at the end, without a parent. -/
theorem node?_add_size (g : Graph) (c : Content) :
    (g.add c).1.node? g.size = some ⟨c, none⟩ :=
  Array.getElem?_push_size

theorem node?_add_of_ne (c : Content) (h : r ≠ g.size) :
    (g.add c).1.node? r = g.node? r := by
  have hne : r ≠ g.nodes.size := h
  show (g.nodes.push _)[r]? = g.nodes[r]?
  rw [Array.getElem?_push, if_neg hne]

-- =========================================================== re-linking

theorem node?_update_self (f : Node → Node) :
    (g.update r f).node? r = (g.node? r).map f := by
  show (g.nodes.modify r f)[r]? = _
  rw [Array.getElem?_modify, if_pos rfl]
  rfl

theorem node?_update_of_ne {x : Ref} (f : Node → Node) (h : x ≠ r) :
    (g.update r f).node? x = g.node? x := by
  show (g.nodes.modify r f)[x]? = _
  rw [Array.getElem?_modify, if_neg (Ne.symm h)]
  rfl

theorem size_update (g : Graph) (r : Ref) (f : Node → Node) :
    (g.update r f).size = g.size :=
  Array.size_modify

theorem size_attach (g : Graph) (r : Ref) (side : Side) (child : Ref) :
    (g.attach r side child).size = g.size := by
  unfold attach setParent link
  rw [size_update, size_update]

/-- The owner gets the operand. -/
theorem node?_attach_owner {side : Side} {child : Ref} {n : Node}
    (hne : r ≠ child) (h : g.node? r = some n) :
    (g.attach r side child).node? r
      = some { n with content := n.content.withOperand side (some child) } := by
  unfold attach setParent link
  rw [node?_update_of_ne _ hne, node?_update_self, h]
  rfl

/-- The operand gets its owner as parent. -/
theorem node?_attach_child {side : Side} {child : Ref} {n : Node}
    (hne : child ≠ r) (h : g.node? child = some n) :
    (g.attach r side child).node? child = some { n with parent := some r } := by
  unfold attach setParent link
  rw [node?_update_self, node?_update_of_ne _ hne, h]
  rfl

theorem node?_attach_of_ne {side : Side} {child x : Ref}
    (howner : x ≠ r) (hchild : x ≠ child) :
    (g.attach r side child).node? x = g.node? x := by
  unfold attach setParent link
  rw [node?_update_of_ne _ hchild, node?_update_of_ne _ howner]

/-- An operator node adopts. -/
theorem adopt_of_node? {op : Option Operator} {left right up : Option Ref}
    (h : g.node? r = some ⟨.operator op left right, up⟩) (side : Side)
    (child : Ref) :
    g.adopt (some r) side child = .ok (g.attach r side child) := by
  unfold adopt
  rw [holder_of_node? h]
  rfl

end Formula.Graph
