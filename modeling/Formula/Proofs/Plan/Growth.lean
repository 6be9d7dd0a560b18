/-
How a plan grows, and how a graph is re-linked to follow it.

# On plans

`fill` puts a value into the vacancy of an open plan.  `splice` puts an
operator into a complete one: above the highest operator on the edge that
binds at least as tightly, or else above the value that ends the edge.
Both write the new place last, after all others (`refs_fill`,
`refs_splice`): a plan that has only grown lists its places in the order
in which they were added.

# On graphs

A value is attached to the end of the edge (`Stands.fill`).  An operator
takes its place with at most two attachments, whatever it displaces:
`spliceAt` makes it the right operand of what was above the pivot, if
there was anything, and the pivot its left operand (`Stands.splice`).
-/
import Formula.Proofs.Plan

namespace Formula

namespace Plan

-- ============================================================== growing

/-- The plan with a value in its vacancy. -/
def fill (n : Ref) (x : Float) : Plan → Plan
  | .vacant => .leaf n x
  | .leaf r y => .leaf r y
  | .node r op left right => .node r op left (right.fill n x)

/-- The plan with an operator spliced in. -/
def splice (n : Ref) (op : Operator) : Plan → Plan
  | .vacant => .node n op .vacant .vacant
  | .leaf r x => .node n op (.leaf r x) .vacant
  | .node r o left right =>
      if op.rank ≤ o.rank then .node n op (.node r o left right) .vacant
      else .node r o left (right.splice n op)

/-- What an operator is spliced in above. -/
def pivot (op : Operator) : Plan → Plan
  | .vacant => .vacant
  | .leaf r x => .leaf r x
  | .node r o left right =>
      if op.rank ≤ o.rank then .node r o left right else right.pivot op

/-- The place above the pivot of a plan that stands below `up`. -/
def abovePivot (op : Operator) : Option Ref → Plan → Option Ref
  | up, .vacant => up
  | up, .leaf _ _ => up
  | up, .node r o _ right =>
      if op.rank ≤ o.rank then up else right.abovePivot op (some r)

/-- Operators further down the spine bind more tightly. -/
def Rising (p : Plan) : Prop :=
  p.spine.Pairwise fun a b => a.2.rank < b.2.rank

variable {n : Ref} {op : Operator} {p : Plan}

-- ================================================= what filling changes

theorem refs_fill (x : Float) (h : p.Open) :
    (p.fill n x).refs = p.refs ++ [n] := by
  induction p with
  | vacant => rfl
  | leaf r y => exact h.elim
  | node r o left right _ ihr =>
      rw [fill, refs, refs, ihr h.2, List.append_assoc, List.cons_append]

theorem operators_fill (x : Float) (p : Plan) :
    (p.fill n x).operators = p.operators := by
  induction p with
  | vacant => rfl
  | leaf r y => rfl
  | node r o left right _ ihr => rw [fill, operators, operators, ihr]

theorem edge_fill (x : Float) (h : p.Open) :
    (p.fill n x).edge = p.edge ++ [n] := by
  induction p with
  | vacant => rfl
  | leaf r y => exact h.elim
  | node r o left right _ ihr =>
      rw [fill, edge, edge, ihr h.2, List.cons_append]

theorem spine_fill (x : Float) (p : Plan) :
    (p.fill n x).spine = p.spine := by
  induction p with
  | vacant => rfl
  | leaf r y => rfl
  | node r o left right _ ihr => rw [fill, spine, spine, ihr]

theorem Open.fill (h : p.Open) (x : Float) : (p.fill n x).Complete := by
  induction p with
  | vacant => trivial
  | leaf r y => exact h.elim
  | node r o left right _ ihr => exact ⟨h.1, ihr h.2⟩

theorem top_fill (x : Float) (h : p.top ≠ none) :
    (p.fill n x).top = p.top := by
  cases p with
  | vacant => exact absurd rfl h
  | leaf r y => rfl
  | node r o left right => rfl

theorem Rising.fill (h : p.Rising) (x : Float) : (p.fill n x).Rising := by
  unfold Rising
  rw [spine_fill]
  exact h

-- ================================================ what splicing changes

theorem refs_splice (p : Plan) : (p.splice n op).refs = p.refs ++ [n] := by
  induction p with
  | vacant => rfl
  | leaf r x => rfl
  | node r o left right _ ihr =>
      rw [splice]
      split
      · rfl
      · rw [refs, refs, ihr, List.append_assoc, List.cons_append]

theorem operators_splice (p : Plan) :
    (p.splice n op).operators = p.operators ++ [n] := by
  induction p with
  | vacant => rfl
  | leaf r x => rfl
  | node r o left right _ ihr =>
      rw [splice]
      split
      · rfl
      · rw [operators, operators, ihr, List.append_assoc, List.cons_append]

/-- The spine keeps the operators that bind less tightly, and the new one
comes below them. -/
theorem spine_splice (p : Plan) :
    (p.splice n op).spine
      = p.spine.takeWhile (·.2.rank < op.rank) ++ [(n, op)] := by
  induction p with
  | vacant => rfl
  | leaf r x => rfl
  | node r o left right _ ihr =>
      rw [splice, spine]
      by_cases hle : op.rank ≤ o.rank
      · rw [if_pos hle, List.takeWhile_cons_of_neg (by simpa using hle)]
        rfl
      · rw [if_neg hle, List.takeWhile_cons_of_pos (by simpa using hle),
          spine, ihr]
        rfl

/-- The edge ends at the new operator. -/
theorem edge_splice (p : Plan) :
    (p.splice n op).edge
      = (p.spine.takeWhile (·.2.rank < op.rank)).map (·.1) ++ [n] := by
  induction p with
  | vacant => rfl
  | leaf r x => rfl
  | node r o left right _ ihr =>
      rw [splice, spine]
      by_cases hle : op.rank ≤ o.rank
      · rw [if_pos hle, List.takeWhile_cons_of_neg (by simpa using hle)]
        rfl
      · rw [if_neg hle, List.takeWhile_cons_of_pos (by simpa using hle),
          edge, ihr]
        rfl

theorem Complete.splice (h : p.Complete) : (p.splice n op).Open := by
  induction p with
  | vacant => exact h.elim
  | leaf r x => exact ⟨trivial, trivial⟩
  | node r o left right _ ihr =>
      rw [Plan.splice]
      split
      · exact ⟨h, trivial⟩
      · exact ⟨h.1, ihr h.2⟩

theorem Rising.splice (h : p.Rising) : (p.splice n op).Rising := by
  unfold Rising
  rw [spine_splice, List.pairwise_append]
  refine ⟨h.sublist (List.takeWhile_sublist _),
    List.pairwise_singleton _ _, ?_⟩
  intro a ha b hb
  rw [List.mem_singleton.1 hb]
  exact of_decide_eq_true (List.all_eq_true.1 List.all_takeWhile a ha)

-- ============================================================ the pivot

theorem mem_edge_of_pivot {q : Ref} (h : (p.pivot op).top = some q) :
    q ∈ p.edge := by
  induction p with
  | vacant => cases h
  | leaf r x =>
      injection h with h
      exact List.mem_singleton.2 h.symm
  | node r o left right _ ihr =>
      rw [pivot] at h
      split at h
      · injection h with h
        rw [← h]
        exact List.mem_cons_self ..
      · exact List.mem_cons_of_mem _ (ihr h)

/-- Either the whole plan is the pivot, and the operator comes above it;
or what is above the pivot lies on the plan's edge, and the plan keeps
its top. -/
theorem pivot_cases (n : Ref) (op : Operator) (up : Option Ref) (p : Plan) :
    (p.pivot op = p ∧ p.abovePivot op up = up
        ∧ p.splice n op = .node n op p .vacant)
      ∨ ∃ u ∈ p.edge, p.abovePivot op up = some u
        ∧ (p.splice n op).top = p.top := by
  induction p generalizing up with
  | vacant => exact Or.inl ⟨rfl, rfl, rfl⟩
  | leaf r x => exact Or.inl ⟨rfl, rfl, rfl⟩
  | node r o left right _ ihr =>
      by_cases hle : op.rank ≤ o.rank
      · refine Or.inl ⟨?_, ?_, ?_⟩
        · rw [pivot, if_pos hle]
        · rw [abovePivot, if_pos hle]
        · rw [splice, if_pos hle]
      · right
        rw [abovePivot, if_neg hle, splice, if_neg hle]
        rcases ihr (some r) with ⟨-, habove, -⟩ | ⟨u, hu, habove, -⟩
        · exact ⟨r, List.mem_cons_self .., habove, rfl⟩
        · exact ⟨u, List.mem_cons_of_mem _ hu, habove, rfl⟩

/-- The pivot is not above itself. -/
theorem abovePivot_ne {up : Option Ref} {q : Ref} (hd : p.refs.Nodup)
    (hq : (p.pivot op).top = some q) (hup : ∀ u, up = some u → u ∉ p.refs) :
    p.abovePivot op up ≠ some q := by
  induction p generalizing up with
  | vacant => cases hq
  | leaf r x => exact fun h => hup q h (mem_refs_of_top hq)
  | node r o left right _ ihr =>
      rw [pivot] at hq
      rw [abovePivot]
      by_cases hle : op.rank ≤ o.rank
      · rw [if_pos hle] at hq ⊢
        exact fun h => hup q h (mem_refs_of_top hq)
      · rw [if_neg hle] at hq ⊢
        obtain ⟨-, hdr, -, hrr, -⟩ := nodup_node hd
        refine ihr hdr hq fun u hu => ?_
        injection hu with hu
        subst hu
        exact hrr

/-- The pivot is the highest operator of the spine that binds at least as
tightly, or else the end of the edge. -/
theorem pivot_top (op : Operator) (h : p.Complete) :
    (p.pivot op).top
      = ((p.spine.find? (op.rank ≤ ·.2.rank)).map (·.1)).or
          p.edge.getLast? := by
  induction p with
  | vacant => exact h.elim
  | leaf r x => rfl
  | node r o left right _ ihr =>
      rw [pivot, spine]
      by_cases hle : op.rank ≤ o.rank
      · rw [if_pos hle, List.find?_cons_of_pos (by simpa using hle)]
        rfl
      · obtain ⟨q, hq⟩ := edge_getLast?_isSome h.2.top_ne_none
        rw [if_neg hle, List.find?_cons_of_neg (by simpa using hle),
          ihr h.2, edge, List.getLast?_cons, hq]
        rfl

end Plan

-- ========================================================== re-linking

namespace Graph

/-- Puts an operator node in the place of a pivot: below what was above
the pivot, with the pivot as left operand. -/
def spliceAt (g : Graph) (n : Ref) (above : Option Ref) (pivot : Ref) : Graph :=
  (match above with
    | none => g
    | some u => g.attach u .right n).attach n .left pivot

variable {g g' : Graph} {n q : Ref} {op : Operator} {up : Option Ref} {p : Plan}

theorem size_spliceAt (g : Graph) (n : Ref) (above : Option Ref) (q : Ref) :
    (g.spliceAt n above q).size = g.size := by
  unfold spliceAt
  rw [size_attach]
  cases above with
  | none => rfl
  | some u => exact size_attach ..

theorem node?_spliceAt_of_ne {above : Option Ref} {r : Ref} (hn : r ≠ n)
    (hq : r ≠ q) (hu : above ≠ some r) :
    (g.spliceAt n above q).node? r = g.node? r := by
  unfold spliceAt
  rw [node?_attach_of_ne hn hq]
  cases above with
  | none => rfl
  | some u =>
      have hne : r ≠ u := fun h => hu (congrArg some h.symm)
      exact node?_attach_of_ne hne hn

/-- What was above the pivot has the operator as right operand. -/
theorem node?_spliceAt_above {u : Ref} {o : Option Operator}
    {left right above : Option Ref} (hn : u ≠ n) (hq : u ≠ q)
    (h : g.node? u = some ⟨.operator o left right, above⟩) :
    (g.spliceAt n (some u) q).node? u
      = some ⟨.operator o left (some n), above⟩ := by
  unfold spliceAt
  rw [node?_attach_of_ne hn hq]
  exact node?_attach_owner hn h

/-- The operator is below it, and has the pivot as left operand. -/
theorem node?_spliceAt_self {above : Option Ref} (hq : n ≠ q)
    (hu : above ≠ some n)
    (h : g.node? n = some ⟨.operator (some op) none none, none⟩) :
    (g.spliceAt n above q).node? n
      = some ⟨.operator (some op) (some q) none, above⟩ := by
  unfold spliceAt
  cases above with
  | none => exact node?_attach_owner hq h
  | some u =>
      have hne : n ≠ u := fun h => hu (congrArg some h.symm)
      exact node?_attach_owner hq (node?_attach_child hne h)

/-- The pivot is below the operator, and the same otherwise. -/
theorem node?_spliceAt_pivot {above : Option Ref} {m : Node} (hn : q ≠ n)
    (hu : above ≠ some q) (h : g.node? q = some m) :
    (g.spliceAt n above q).node? q = some { m with parent := some n } := by
  unfold spliceAt
  refine node?_attach_child hn ?_
  cases above with
  | none => exact h
  | some u =>
      have hne : q ≠ u := fun h => hu (congrArg some h.symm)
      exact (node?_attach_of_ne hne hn).trans h

/-- The pivot keeps its operator. -/
theorem operator?_spliceAt_pivot {above : Option Ref} {o : Operator}
    (hn : q ≠ n) (hu : above ≠ some q) (h : g.operator? q = some o) :
    (g.spliceAt n above q).operator? q = some o := by
  cases hm : g.node? q with
  | none =>
      unfold operator? content? at h
      rw [hm] at h
      cases h
  | some m =>
      unfold operator? at h ⊢
      rw [content?_of_node? hm] at h
      rw [content?_of_node? (node?_spliceAt_pivot hn hu hm)]
      exact h

-- ================================================ standing by the growth

/-- A plan whose top node got another parent stands below that. -/
theorem Stands.move {up' : Option Ref} (hp : g.Stands up p)
    (hd : p.refs.Nodup) (htop : p.top = some q)
    (hq : ∀ m, g.node? q = some m →
      g'.node? q = some { m with parent := up' })
    (hrest : ∀ r ∈ p.refs, r ≠ q → g'.node? r = g.node? r) :
    g'.Stands up' p := by
  cases p with
  | vacant => trivial
  | leaf r x =>
      injection htop with htop
      subst htop
      exact hq _ hp
  | node r o left right =>
      injection htop with htop
      subst htop
      obtain ⟨hr, hl, ht⟩ := hp
      obtain ⟨-, -, hrl, hrr, -⟩ := Plan.nodup_node hd
      refine ⟨hq _ hr, hl.congr ?_, ht.congr ?_⟩
      · intro s hs
        exact hrest s (Plan.mem_refs_node.2 (Or.inl hs))
          (ne_of_mem_of_not_mem hs hrl)
      · intro s hs
        exact hrest s (Plan.mem_refs_node.2 (Or.inr (Or.inr hs)))
          (ne_of_mem_of_not_mem hs hrr)

/-- What stands above the pivot is its parent. -/
theorem Stands.parent?_pivot (hp : g.Stands up p)
    (hq : (p.pivot op).top = some q) :
    g.parent? q = p.abovePivot op up := by
  induction p generalizing up with
  | vacant => cases hq
  | leaf r x => exact hp.parent?_top hq
  | node r o left right _ ihr =>
      rw [Plan.pivot] at hq
      rw [Plan.abovePivot]
      by_cases hle : op.rank ≤ o.rank
      · rw [if_pos hle] at hq ⊢
        exact hp.parent?_top hq
      · rw [if_neg hle] at hq ⊢
        exact ihr hp.2.2 hq

/-- What stands above the pivot is an operator node. -/
theorem Stands.node?_abovePivot {u : Ref} (hp : g.Stands up p)
    (hu : p.abovePivot op up = some u) :
    up = some u ∨ ∃ o left right above,
      g.node? u = some ⟨.operator o left right, above⟩ := by
  induction p generalizing up with
  | vacant => exact Or.inl hu
  | leaf r x => exact Or.inl hu
  | node r o left right _ ihr =>
      rw [Plan.abovePivot] at hu
      split at hu
      · exact Or.inl hu
      · rcases ihr hp.2.2 hu with h | h
        · injection h with h
          subst h
          exact Or.inr ⟨_, _, _, _, hp.1⟩
        · exact Or.inr h

/-- The end of an open edge is an operator node without right operand. -/
theorem Stands.node?_edge_last (hp : g.Stands up p) (ho : p.Open)
    (hq : p.edge.getLast? = some q) :
    ∃ o left above, g.node? q = some ⟨.operator o left none, above⟩ := by
  induction p generalizing up with
  | vacant => cases hq
  | leaf r x => exact ho.elim
  | node r o left right _ ihr =>
      obtain ⟨hr, -, ht⟩ := hp
      cases right with
      | vacant =>
          injection hq with hq
          subst hq
          exact ⟨_, _, _, hr⟩
      | leaf s x => exact ho.2.elim
      | node s o' left' right' => exact ihr ht ho.2 hq

/-- A value attached to the end of the edge fills the vacancy. -/
theorem Stands.fill {x : Float} (hp : g.Stands up p) (ho : p.Open)
    (hd : p.refs.Nodup) (hn : n ∉ p.refs)
    (hnew : g.node? n = some ⟨.value x, none⟩)
    (hq : p.edge.getLast? = some q) :
    (g.attach q .right n).Stands up (p.fill n x) := by
  induction p generalizing up with
  | vacant => cases hq
  | leaf r y => exact ho.elim
  | node r o left right _ ihr =>
      obtain ⟨hr, hl, ht⟩ := hp
      obtain ⟨-, hdr, hrl, hrr, hdisj⟩ := Plan.nodup_node hd
      obtain ⟨hnl, hne, hnr⟩ := Plan.notMem_refs_node hn
      cases right with
      | vacant =>
          -- the vacancy is right here
          injection hq with hq
          subst hq
          refine ⟨node?_attach_owner (Ne.symm hne) hr, hl.congr ?_,
            node?_attach_child hne hnew⟩
          intro s hs
          exact node?_attach_of_ne (ne_of_mem_of_not_mem hs hrl)
            (ne_of_mem_of_not_mem hs hnl)
      | leaf s y => exact ho.2.elim
      | node s o' left' right' =>
          -- the vacancy is further down, and so is what is attached
          have hqr : q ∈ (Plan.node s o' left' right').refs :=
            Plan.edge_subset_refs _ (List.mem_of_getLast? hq)
          have hrq : r ≠ q := (ne_of_mem_of_not_mem hqr hrr).symm
          refine ⟨?_, hl.congr ?_, ihr ht ho.2 hdr hnr hq⟩
          · exact (node?_attach_of_ne hrq hne.symm).trans hr
          · intro t htl
            exact node?_attach_of_ne
              (ne_of_mem_of_not_mem hqr (hdisj t htl)).symm
              (ne_of_mem_of_not_mem htl hnl)

/-- An operator node put in the place of a whole plan has it as left
operand. -/
theorem Stands.spliceTop (hp : g.Stands up p) (hd : p.refs.Nodup)
    (hn : n ∉ p.refs)
    (hnew : g.node? n = some ⟨.operator (some op) none none, none⟩)
    (hup : ∀ u, up = some u → u ∉ p.refs ∧ u ≠ n) (hq : p.top = some q) :
    (g.spliceAt n up q).Stands up (.node n op p .vacant) := by
  have hqp := Plan.mem_refs_of_top hq
  have hqn : q ≠ n := ne_of_mem_of_not_mem hqp hn
  have hupn : up ≠ some n := fun h => (hup n h).2 rfl
  refine ⟨?_, hp.move hd hq ?_ ?_, trivial⟩
  · rw [hq]
    exact node?_spliceAt_self (Ne.symm hqn) hupn hnew
  · intro m hm
    exact node?_spliceAt_pivot hqn (fun h => (hup q h).1 hqp) hm
  · intro r hr hrq
    exact node?_spliceAt_of_ne (ne_of_mem_of_not_mem hr hn) hrq
      (fun h => (hup r h).1 hr)

/-- An operator node put in the place of the pivot is spliced in. -/
theorem Stands.splice (hp : g.Stands up p) (hd : p.refs.Nodup)
    (hn : n ∉ p.refs)
    (hnew : g.node? n = some ⟨.operator (some op) none none, none⟩)
    (hup : ∀ u, up = some u → u ∉ p.refs ∧ u ≠ n)
    (hq : (p.pivot op).top = some q) :
    (g.spliceAt n (p.abovePivot op up) q).Stands up (p.splice n op) := by
  induction p generalizing up with
  | vacant => cases hq
  | leaf r x => exact Stands.spliceTop hp hd hn hnew hup hq
  | node r o left right _ ihr =>
      by_cases hle : op.rank ≤ o.rank
      · rw [Plan.pivot, if_pos hle] at hq
        rw [Plan.abovePivot, if_pos hle, Plan.splice, if_pos hle]
        exact Stands.spliceTop hp hd hn hnew hup hq
      · rw [Plan.pivot, if_neg hle] at hq
        rw [Plan.abovePivot, if_neg hle, Plan.splice, if_neg hle]
        obtain ⟨hr, hl, ht⟩ := hp
        obtain ⟨-, hdr, hrl, hrr, hdisj⟩ := Plan.nodup_node hd
        obtain ⟨hnl, hne, hnr⟩ := Plan.notMem_refs_node hn
        have hrn : r ≠ n := hne.symm
        have hqr : q ∈ right.refs :=
          Plan.edge_subset_refs _ (Plan.mem_edge_of_pivot hq)
        have hrq : r ≠ q := (ne_of_mem_of_not_mem hqr hrr).symm
        have hbelow := ihr ht hdr hnr (fun u hu => by
          injection hu with hu
          subst hu
          exact ⟨hrr, hrn⟩) hq
        refine ⟨?_, hl.congr fun s hs => ?_, hbelow⟩
        · -- this node's right link changes only if the pivot is right below
          rcases Plan.pivot_cases n op (some r) right with
            ⟨-, habove, hsplice⟩ | ⟨u, hu, habove, htop⟩
          · rw [habove, hsplice]
            exact node?_spliceAt_above hrn hrq hr
          · rw [habove, htop]
            refine Eq.trans (node?_spliceAt_of_ne hrn hrq ?_) hr
            intro h
            injection h with h
            subst h
            exact hrr (Plan.edge_subset_refs _ hu)
        · -- nothing in the left operand is touched
          refine node?_spliceAt_of_ne (ne_of_mem_of_not_mem hs hnl)
            (ne_of_mem_of_not_mem hqr (hdisj s hs)).symm ?_
          intro h
          rcases Plan.pivot_cases n op (some r) right with
            ⟨-, habove, -⟩ | ⟨u, hu, habove, -⟩
          · rw [habove] at h
            injection h with h
            subst h
            exact hrl hs
          · rw [habove] at h
            injection h with h
            subst h
            exact hdisj _ hs (Plan.edge_subset_refs _ hu)

end Graph

end Formula
