/-
The nodes below a place, once for each path that leads to them.  A graph
without cycles is unrolled into a tree there (`exists_unrolls`): operands
that are missing are missing, and what is shared stands in as many places
as there are paths to it.

The tree can be listed in pre-order, and it has levels.  Each of the
graph's walks, given an allowance for the height of the tree, comes to one
of these readings, though none of them knows of a tree: the stack to the
pre-order (`Unrolls.depthFirst_eq`), the level that is replaced by its
operands to the levels (`Unrolls.levels_eq`), and the queue to the levels
joined (`Unrolls.breadthFirst_eq`).

# The queue

Somewhere within a level the queue holds the rest of that level and, after
it, the operands of what was before in it.  The rest may follow one link
more than the operands may, and that is what the two parts of the queue in
`breadthFirst_level` are told apart by.
-/
import Formula.Proofs.Accounting
import Formula.Proofs.Graph.Acyclic

namespace Formula

/-- Nodes with a place for either operand, and nothing where there is no
operand. -/
inductive Unrolled where
  | none
  | node (r : Ref) (left right : Unrolled)

namespace Unrolled

/-- Every node before its operands, and the left one before the right. -/
def preorder : Unrolled → List Ref
  | .none => []
  | .node r left right => r :: (left.preorder ++ right.preorder)

/-- The nodes that are some number of links below the top, from left to
right. -/
def level : Unrolled → Nat → List Ref
  | .none, _ => []
  | .node r _ _, 0 => [r]
  | .node _ left right, k + 1 => left.level k ++ right.level k

/-- How many nodes a longest branch has. -/
def height : Unrolled → Nat
  | .none => 0
  | .node _ left right => max left.height right.height + 1

theorem level_eq_nil_iff (t : Unrolled) (k : Nat) :
    t.level k = [] ↔ t.height ≤ k := by
  induction t generalizing k with
  | none => simp [level, height]
  | node r left right ihl ihr =>
      cases k with
      | zero => simp [level, height]
      | succ k =>
          rw [level, List.append_eq_nil_iff, ihl, ihr, height]
          omega

/-- The levels down to any depth from the height on are the nodes in
pre-order, rearranged. -/
theorem levels_perm_preorder (t : Unrolled) {n : Nat} (hn : t.height ≤ n) :
    ((List.range n).flatMap t.level).Perm t.preorder := by
  induction t generalizing n with
  | none =>
      have hnone : (List.range n).flatMap Unrolled.none.level = [] :=
        List.flatMap_eq_nil_iff.2 fun _ _ => rfl
      rw [hnone]
      exact .refl _
  | node r left right ihl ihr =>
      rw [height] at hn
      obtain _ | n := n
      · omega
      have hbelow : ((List.range n).flatMap fun k =>
          left.level k ++ right.level k).Perm (left.preorder ++ right.preorder) :=
        (List.flatMap_append_perm ..).symm.trans
          ((ihl (by omega)).append (ihr (by omega)))
      rw [List.range_succ_eq_map, List.flatMap_cons, List.flatMap_map]
      exact hbelow.cons r

end Unrolled

namespace Graph

open Unrolled

/-- The tree is the graph below a place, unrolled. -/
inductive Unrolls (g : Graph) : Option Ref → Unrolled → Prop
  | none : Unrolls g none .none
  | node {r : Ref} {left right : Unrolled}
      (hleft : Unrolls g (g.operand? r .left) left)
      (hright : Unrolls g (g.operand? r .right) right) :
      Unrolls g (some r) (.node r left right)

variable {g : Graph} {r : Option Ref} {s : Ref} {t u : Unrolled} {n k : Nat}

theorem Unrolls.unique (h : g.Unrolls r t) (h' : g.Unrolls r u) : t = u := by
  induction h generalizing u with
  | none =>
      cases h'
      rfl
  | node _ _ ihl ihr =>
      cases h' with
      | node hleft hright => rw [ihl hleft, ihr hright]

/-- An allowance that no path below a place uses up is an allowance for
the tree. -/
theorem exists_unrolls (hclosed : g.Closed) (h : g.Within n r)
    (hr : ∀ s, r = some s → s < g.size) :
    ∃ t, g.Unrolls r t ∧ t.height ≤ n := by
  induction n generalizing r with
  | zero =>
      cases r with
      | none => exact ⟨.none, .none, Nat.zero_le _⟩
      | some s => exact absurd (h s rfl [] s rfl (hr s rfl)) (Nat.not_lt_zero _)
  | succ n ih =>
      cases r with
      | none => exact ⟨.none, .none, Nat.zero_le _⟩
      | some s =>
          obtain ⟨left, hleft, hheightl⟩ :=
            ih h.operand fun c => hclosed s .left c
          obtain ⟨right, hright, hheightr⟩ :=
            ih h.operand fun c => hclosed s .right c
          refine ⟨.node s left right, .node hleft hright, ?_⟩
          rw [Unrolled.height]
          omega

theorem operands_eq (g : Graph) (s : Ref) :
    g.operands s
      = (g.operand? s .left).toList ++ (g.operand? s .right).toList := by
  unfold operands operand?
  cases g.content? s <;> rfl

/-- What the tree lists is what can be reached. -/
theorem Unrolls.mem_preorder_iff (h : g.Unrolls r t) (x : Ref) :
    x ∈ t.preorder ↔ ∃ s, r = some s ∧ g.Reaches s x := by
  induction h with
  | none => simp [preorder]
  | @node s left right _ _ ihl ihr =>
      rw [preorder, List.mem_cons, List.mem_append, ihl, ihr]
      constructor
      · intro hx
        refine ⟨s, rfl, reaches_iff.2 (hx.imp_right ?_)⟩
        rintro (⟨c, hc, hreach⟩ | ⟨c, hc, hreach⟩)
        · exact ⟨.left, c, hc, hreach⟩
        · exact ⟨.right, c, hc, hreach⟩
      · rintro ⟨_, ⟨⟩, hreach⟩
        rcases reaches_iff.1 hreach with rfl | ⟨side, c, hc, hreach⟩
        · exact .inl rfl
        · cases side with
          | left => exact .inr (.inl ⟨c, hc, hreach⟩)
          | right => exact .inr (.inr ⟨c, hc, hreach⟩)

-- ============================================================= the stack

/-- The stack takes the place and all that is below it in pre-order, and
goes on with what waits. -/
theorem Unrolls.depthFirst_eq (h : g.Unrolls r t) (hn : t.height ≤ n)
    (stack : List Visit) :
    g.depthFirst (r.toList.map (⟨n, ·⟩) ++ stack)
      = t.preorder ++ g.depthFirst stack := by
  induction h generalizing n stack with
  | none => rfl
  | @node s left right _ _ ihl ihr =>
      rw [Unrolled.height] at hn
      obtain _ | n := n
      · omega
      show g.depthFirst (⟨n + 1, s⟩ :: stack) = _
      rw [depthFirst, Graph.below, operands_eq, List.map_append,
        List.append_assoc, ihl (by omega), ihr (by omega), preorder,
        List.cons_append, List.append_assoc]

-- ============================================================ the levels

theorem Unrolls.level_zero (h : g.Unrolls r t) : t.level 0 = r.toList := by
  cases h <;> rfl

/-- The operands of a level are the next one. -/
theorem Unrolls.flatMap_operands (h : g.Unrolls r t) (k : Nat) :
    (t.level k).flatMap g.operands = t.level (k + 1) := by
  induction h generalizing k with
  | none => rfl
  | @node s left right hleft hright ihl ihr =>
      cases k with
      | zero =>
          rw [level, level, List.flatMap_singleton, operands_eq,
            hleft.level_zero, hright.level_zero]
      | succ k => rw [level, level, List.flatMap_append, ihl, ihr]

theorem Unrolls.levels_succ (h : g.Unrolls r t) (hk : k < t.height) (n : Nat) :
    g.levels (n + 1) (t.level k) = t.level k :: g.levels n (t.level (k + 1)) := by
  rw [← h.flatMap_operands]
  cases hlevel : t.level k with
  | nil => exact absurd ((t.level_eq_nil_iff k).1 hlevel) (Nat.not_le_of_lt hk)
  | cons s rest => rfl

theorem levels_nil (g : Graph) (n : Nat) : g.levels n [] = [] := by
  cases n <;> rfl

/-- Replacing a level by its operands, time and again, goes through the
levels of the tree. -/
theorem Unrolls.levels_eq (h : g.Unrolls r t) (hn : t.height ≤ k + n) :
    g.levels n (t.level k) = (List.range' k (t.height - k)).map t.level := by
  have hdone : ∀ k n, t.height ≤ k →
      g.levels n (t.level k) = (List.range' k (t.height - k)).map t.level := by
    intro k n hk
    rw [(t.level_eq_nil_iff k).2 hk, levels_nil, Nat.sub_eq_zero_of_le hk]
    rfl
  induction n generalizing k with
  | zero => exact hdone k 0 hn
  | succ n ih =>
      by_cases hk : t.height ≤ k
      · exact hdone k (n + 1) hk
      · have hcount : t.height - k = t.height - (k + 1) + 1 := by omega
        rw [h.levels_succ (Nat.lt_of_not_le hk), ih (by omega), hcount,
          List.range'_succ, List.map_cons]

-- ============================================================= the queue

/-- The queue takes what is left of a level, and then holds the whole of
the next one. -/
theorem breadthFirst_level (g : Graph) (n : Nat) (rest next : List Ref) :
    g.breadthFirst (rest.map (⟨n + 1, ·⟩) ++ next.map (⟨n, ·⟩))
      = rest ++ g.breadthFirst ((next ++ rest.flatMap g.operands).map (⟨n, ·⟩)) := by
  induction rest generalizing next with
  | nil => simp
  | cons s rest ih =>
      rw [List.map_cons, List.cons_append, breadthFirst, Graph.below,
        List.append_assoc, ← List.map_append, ih, List.append_assoc,
        List.flatMap_cons, List.cons_append]

/-- The queue takes one level after another. -/
theorem Unrolls.breadthFirst_eq (h : g.Unrolls r t) (hn : t.height ≤ k + n) :
    g.breadthFirst ((t.level k).map (⟨n, ·⟩)) = (g.levels n (t.level k)).flatten := by
  have hdone : ∀ k n, t.height ≤ k →
      g.breadthFirst ((t.level k).map (⟨n, ·⟩))
        = (g.levels n (t.level k)).flatten := by
    intro k n hk
    rw [(t.level_eq_nil_iff k).2 hk, levels_nil, List.map_nil, breadthFirst,
      List.flatten_nil]
  induction n generalizing k with
  | zero => exact hdone k 0 hn
  | succ n ih =>
      by_cases hk : t.height ≤ k
      · exact hdone k (n + 1) hk
      · have hlevel := g.breadthFirst_level n (t.level k) []
        rw [List.map_nil, List.append_nil, List.nil_append, h.flatMap_operands]
          at hlevel
        rw [hlevel, ih (by omega), h.levels_succ (Nat.lt_of_not_le hk),
          List.flatten_cons]

end Graph

end Formula
