/-
Graphs that unfold into a tree, and what is read off them.  A formula by
itself has a value, a text, a size and a height, each by recursion on the
tree.  The graph's own readers know no tree: they follow links, with an
allowance against cycles, and fold by stacks, walk depth first or go
level by level.  Where the graph unfolds into a tree they come to the
readings of that tree.

To unfold is to find a whole formula below a place: operator nodes with
their operators and both operands, all the way down to value nodes.
Nothing is asked of the parents, and a shared node is unfolded once for
every way to it.

# The allowance

It is as many links as the graph has nodes, and that is enough.  A node
that came up again below itself would unfold into a part of the tree that
it unfolds into.  So a longest branch meets different nodes
(`Unfolds.exists_trail`), and the tree is no higher than the graph has
nodes.
-/
import Formula.Equation
import Formula.Proofs.Graph.Fold
import Formula.Proofs.Plan

namespace Formula

-- ============================================================ on trees

namespace Tree

/-- The tree folded from its leaves up. -/
def fold {α : Type} (leaf : Float → α) (join : Operator → α → α → α) :
    Tree → α
  | .leaf x => leaf x
  | .node op left right => join op (left.fold leaf join) (right.fold leaf join)

/-- What the formula comes to. -/
def value : Tree → Float
  | .leaf x => x
  | .node op left right => op.apply left.value right.value

/-- The formula with parentheses around every operation. -/
def text : Tree → String
  | .leaf x => Decimal.brief x
  | .node op left right =>
      "(" ++ left.text ++ " " ++ op.symbol ++ " " ++ right.text ++ ")"

/-- How many nodes it has. -/
def size : Tree → Nat
  | .leaf _ => 1
  | .node _ left right => left.size + right.size + 1

/-- How many nodes its longest branch has. -/
def height : Tree → Nat
  | .leaf _ => 1
  | .node _ left right => max left.height right.height + 1

/-- How many nested calls a fold by recursion needs: one for each operator
on the way down, and those that reading a number takes, or applying an
operator if it is more. -/
def calls (c : Overhead) : Tree → Nat
  | .leaf _ => c.reading
  | .node _ left right =>
      max (left.calls c) (max (right.calls c) c.applying) + 1

theorem fold_value (t : Tree) : t.fold id Operator.apply = t.value := by
  induction t with
  | leaf x => rfl
  | node op left right ihl ihr => rw [fold, value, ihl, ihr]

theorem fold_text (t : Tree) :
    t.fold Decimal.brief Operator.infixText = t.text := by
  induction t with
  | leaf x => rfl
  | node op left right ihl ihr =>
      rw [fold, text, ihl, ihr]
      rfl

/-- Every operator on the longest branch is a call. -/
theorem height_le_calls (c : Overhead) (t : Tree) :
    t.height + c.reading ≤ t.calls c + 1 := by
  induction t with
  | leaf x =>
      rw [height, calls]
      omega
  | node op left right ihl ihr =>
      rw [height, calls]
      omega

/-- The same shape, the same operators in the same places, and numbers
that are the same in some way. -/
inductive Alike (same : Float → Float → Prop) : Tree → Tree → Prop
  | leaf {x y : Float} (h : same x y) : Alike same (.leaf x) (.leaf y)
  | node {op : Operator} {left left' right right' : Tree}
      (hleft : Alike same left left') (hright : Alike same right right') :
      Alike same (.node op left right) (.node op left' right')

end Tree

namespace Graph

/-- The formula below a place. -/
inductive Unfolds (g : Graph) : Option Ref → Tree → Prop
  | leaf {r : Option Ref} {x : Float}
      (h : r.bind g.content? = some (.value x)) : Unfolds g r (.leaf x)
  | node {r left right : Option Ref} {op : Operator} {t u : Tree}
      (h : r.bind g.content? = some (.operator (some op) left right))
      (hleft : Unfolds g left t) (hright : Unfolds g right u) :
      Unfolds g r (.node op t u)

variable {g : Graph} {r : Option Ref} {s : Ref} {t u : Tree} {n : Nat}

theorem Unfolds.unique (h : g.Unfolds r t) (h' : g.Unfolds r u) : t = u := by
  induction h generalizing u with
  | leaf h =>
      cases h' with
      | leaf h' =>
          cases h.symm.trans h'
          rfl
      | node h' => cases h.symm.trans h'
  | node h _ _ ihl ihr =>
      cases h' with
      | leaf h' => cases h.symm.trans h'
      | node h' hleft' hright' =>
          cases h.symm.trans h'
          rw [ihl hleft', ihr hright']

theorem Unfolds.exists_lt_size (h : g.Unfolds r t) :
    ∃ s, r = some s ∧ s < g.size := by
  cases h with
  | leaf h | node h =>
      obtain ⟨s, hs, hcontent⟩ := Option.bind_eq_some_iff.1 h
      exact ⟨s, hs, lt_size_of_content? hcontent⟩

theorem Unfolds.exists_operands {op : Operator}
    (h : g.Unfolds (some s) (.node op t u)) :
    ∃ left right, g.content? s = some (.operator (some op) left right)
      ∧ g.Unfolds left t ∧ g.Unfolds right u := by
  cases h with
  | node h hleft hright => exact ⟨_, _, h, hleft, hright⟩

-- ======================================================== long branches

/-- Different nodes, and below none of them a formula larger than some
size. -/
def Trail (g : Graph) (n : Nat) (trail : List Ref) : Prop :=
  trail.Nodup ∧ ∀ s ∈ trail, s < g.size
    ∧ ∃ t, g.Unfolds (some s) t ∧ t.size ≤ n

/-- A trail is continued upwards by a node with a larger formula below. -/
theorem Trail.cons {trail : List Ref} (h : g.Trail n trail)
    (hs : g.Unfolds (some s) t) (hlt : n < t.size) :
    g.Trail t.size (s :: trail) := by
  obtain ⟨s', hs', hin⟩ := hs.exists_lt_size
  cases hs'
  refine ⟨List.nodup_cons.2 ⟨fun hmem => ?_, h.1⟩,
    List.forall_mem_cons.2 ⟨⟨hin, t, hs, Nat.le_refl _⟩, fun q hq => ?_⟩⟩
  · obtain ⟨-, u, hu, hle⟩ := h.2 s hmem
    rw [hu.unique hs] at hle
    omega
  · obtain ⟨hq, u, hu, hle⟩ := h.2 q hq
    exact ⟨hq, u, hu, by omega⟩

/-- The longest branch is a trail. -/
theorem Unfolds.exists_trail (h : g.Unfolds r t) :
    ∃ trail, trail.length = t.height ∧ g.Trail t.size trail := by
  induction h with
  | @leaf r x h =>
      have hleaf : g.Unfolds r (.leaf x) := .leaf h
      obtain ⟨s, rfl, hs⟩ := hleaf.exists_lt_size
      refine ⟨[s], rfl, List.pairwise_singleton .., fun q hq => ?_⟩
      rw [List.mem_singleton.1 hq]
      exact ⟨hs, _, hleaf, Nat.le_refl _⟩
  | @node r left right op t u h hleft hright ihl ihr =>
      have hnode : g.Unfolds r (.node op t u) := .node h hleft hright
      obtain ⟨s, rfl, -⟩ := hnode.exists_lt_size
      -- down the operand that is at least as high as the other
      rcases Nat.le_total t.height u.height with hle | hle
      · obtain ⟨trail, hlength, htrail⟩ := ihr
        refine ⟨s :: trail, ?_, htrail.cons hnode ?_⟩
        · rw [List.length_cons, hlength, Tree.height, Nat.max_eq_right hle]
        · rw [Tree.size]
          omega
      · obtain ⟨trail, hlength, htrail⟩ := ihl
        refine ⟨s :: trail, ?_, htrail.cons hnode ?_⟩
        · rw [List.length_cons, hlength, Tree.height, Nat.max_eq_left hle]
        · rw [Tree.size]
          omega

theorem Unfolds.height_le_size (h : g.Unfolds r t) : t.height ≤ g.size := by
  obtain ⟨trail, hlength, hdistinct, hin⟩ := h.exists_trail
  have hsub : trail ⊆ List.range g.size := fun s hs =>
    List.mem_range.2 (hin s hs).1
  have hle := hdistinct.length_le_of_subset hsub
  rwa [hlength, List.length_range] at hle

-- ============================================================= the folds

variable {α : Type} {leaf : Float → α} {join : Operator → α → α → α}

/-- With an allowance for its height, the fold is that of the tree. -/
theorem Unfolds.foldDeep_eq (h : g.Unfolds r t) (hn : t.height ≤ n) :
    g.foldDeep leaf join n r = .ok (t.fold leaf join) := by
  induction h generalizing n with
  | leaf h =>
      rw [foldDeep, h]
      rfl
  | @node r left right op t u h _ _ ihl ihr =>
      rw [Tree.height] at hn
      obtain _ | n := n
      · omega
      rw [foldDeep, h]
      dsimp only
      rw [ihl (by omega), ihr (by omega)]
      rfl

theorem Unfolds.foldDeep (h : g.Unfolds r t) :
    g.foldDeep leaf join g.size r = .ok (t.fold leaf join) :=
  h.foldDeep_eq h.height_le_size

/-- By recursion the fold settles on that of the tree. -/
theorem Unfolds.foldRec (h : g.Unfolds r t) (c : Overhead) :
    Settles (fun n => g.foldRec leaf join c n r) (t.calls c)
      (.ok (t.fold leaf join)) := by
  induction h with
  | leaf h =>
      intro n
      show g.foldRec leaf join c n _ = _
      rw [Graph.foldRec, h]
      rfl
  | node h _ _ ihl ihr =>
      refine .operator h ?_
      exact ihl.bind_ok (ihr.bind_ok fun _ => rfl)

theorem Unfolds.evaluate (h : g.Unfolds r t) : g.evaluate r = .ok t.value := by
  unfold Graph.evaluate
  rw [fold_eq_foldDeep, h.foldDeep, t.fold_value]

theorem evaluateReporting_of_ok {x : Float} (log : Log)
    (h : g.evaluate r = .ok x) : (g.evaluateReporting log r).2 = .ok x := by
  unfold evaluateReporting
  rw [h]
  dsimp only
  split
  · rfl
  · rfl

theorem Unfolds.evaluateReporting (h : g.Unfolds r t) (log : Log) :
    (g.evaluateReporting log r).2 = .ok t.value :=
  evaluateReporting_of_ok log h.evaluate

theorem Unfolds.evaluateQuietly (h : g.Unfolds r t) (c : Overhead)
    (limit : Nat) :
    g.evaluateQuietly c limit r
      = if t.calls c ≤ limit then .ok t.value
        else .error (.fault .tooDeep) := by
  have hrec : g.evaluateRec c limit r = _ := h.foldRec c limit
  unfold Graph.evaluateQuietly
  rw [hrec, t.fold_value]
  split
  · rfl
  · rfl

theorem Unfolds.render (h : g.Unfolds r t) : g.render r = .ok t.text := by
  rw [← t.fold_text]
  exact (fold_eq_foldDeep r).trans h.foldDeep

theorem Unfolds.text (h : g.Unfolds r t) : g.text r = .ok t.text := by
  obtain ⟨s, rfl, -⟩ := h.exists_lt_size
  unfold Graph.text
  dsimp only
  rw [h.render]
  rfl

theorem Unfolds.algebraicForm (h : g.Unfolds r t) (c : Overhead)
    (limit : Nat) :
    g.algebraicForm c limit r
      = if t.calls c ≤ limit
        then .ok (t.fold Algebra.ofFloat Algebra.ofOperator)
        else .error (.fault .tooDeep) := by
  have hrec : g.algebra c limit r = _ := h.foldRec c limit
  unfold Graph.algebraicForm
  rw [hrec]
  split
  · rfl
  · rfl

-- ============================================================= the walks

/-- The walk meets as many places as the tree has nodes, and goes on with
what waits. -/
theorem Unfolds.length_depthFirst (h : g.Unfolds r t) (hn : t.height ≤ n)
    (stack : List Visit) :
    (g.depthFirst (r.toList.map (⟨n, ·⟩) ++ stack)).length
      = t.size + (g.depthFirst stack).length := by
  induction h generalizing n stack with
  | leaf h =>
      obtain ⟨s, rfl, hs⟩ := Option.bind_eq_some_iff.1 h
      obtain _ | n := n
      · cases hn
      show (g.depthFirst (⟨n + 1, s⟩ :: stack)).length = _
      rw [depthFirst, Graph.below, operands_of_content? hs, List.length_cons,
        Nat.add_comm]
      rfl
  | @node r left right op t u h _ _ ihl ihr =>
      obtain ⟨s, rfl, hs⟩ := Option.bind_eq_some_iff.1 h
      rw [Tree.height] at hn
      obtain _ | n := n
      · omega
      have hoperands : g.operands s = left.toList ++ right.toList :=
        operands_of_content? hs
      show (g.depthFirst (⟨n + 1, s⟩ :: stack)).length = _
      rw [depthFirst, Graph.below, hoperands, List.map_append, List.append_assoc,
        List.length_cons, ihl (by omega), ihr (by omega), Tree.size]
      omega

theorem length_levels_append (n : Nat) (a b : List Ref) :
    (g.levels n (a ++ b)).length
      = max (g.levels n a).length (g.levels n b).length := by
  induction n generalizing a b with
  | zero =>
      cases a <;> cases b <;> rfl
  | succ n ih =>
      cases a with
      | nil => simp [levels]
      | cons r a =>
          cases b with
          | nil => simp [levels]
          | cons s b =>
              simp only [List.cons_append, levels, List.length_cons]
              rw [← List.cons_append, List.flatMap_append, ih]
              omega

/-- There are as many levels as the longest branch has nodes. -/
theorem Unfolds.length_levels (h : g.Unfolds r t) (hn : t.height ≤ n) :
    (g.levels n r.toList).length = t.height := by
  induction h generalizing n with
  | leaf h =>
      obtain ⟨s, rfl, hs⟩ := Option.bind_eq_some_iff.1 h
      obtain _ | n := n
      · cases hn
      show (g.levels n ([s].flatMap g.operands)).length + 1 = 1
      rw [List.flatMap_singleton, operands_of_content? hs]
      cases n <;> rfl
  | @node r left right op t u h _ _ ihl ihr =>
      obtain ⟨s, rfl, hs⟩ := Option.bind_eq_some_iff.1 h
      rw [Tree.height] at hn
      obtain _ | n := n
      · omega
      have hoperands : g.operands s = left.toList ++ right.toList :=
        operands_of_content? hs
      show (g.levels n ([s].flatMap g.operands)).length + 1
        = max t.height u.height + 1
      rw [List.flatMap_singleton, hoperands, length_levels_append,
        ihl (by omega), ihr (by omega)]

theorem Unfolds.sizeBelow (h : g.Unfolds r t) :
    g.sizeBelow r = .ok t.size := by
  obtain ⟨s, rfl, -⟩ := h.exists_lt_size
  have hwalk := h.length_depthFirst h.height_le_size []
  rw [depthFirst] at hwalk
  exact congrArg Except.ok hwalk

theorem Unfolds.height (h : g.Unfolds r t) : g.height r = t.height := by
  obtain ⟨s, rfl, -⟩ := h.exists_lt_size
  exact h.length_levels h.height_le_size

end Graph

end Formula
