/-
Climbing a tree by its parents.  `onRightSpine` goes up from a node as
long as each parent has the one before as its right operand; where the
graph stands by a plan, it says whether the node lies on the plan's
edge, and it neither faults nor runs out of its allowance
(`Stands.onRightSpine`).

The search for what a new operator displaces asks that question of every
operator ever added, oldest first.  On a plan whose operators are the
history it is a search down the spine (`Stands.displaced?`), because the
operators that lie on the edge are the spine in top-down order
(`Plan.operators_filter_edge`).
-/
import Formula.Builder
import Formula.Proofs.Plan

namespace Formula.Graph

variable {g : Graph} {up : Option Ref} {p : Plan}

-- ============================================================ one level

/-- From a right operand the climb goes on at its owner. -/
theorem climb_right {n : Nat} {r owner : Ref} {op : Option Operator}
    {left above : Option Ref} (hr : g.parent? r = some owner)
    (howner : g.node? owner = some ⟨.operator op left (some r), above⟩) :
    g.climb (n + 1) r = g.climb n owner := by
  rw [climb, hr]
  simp only [content?_of_node? howner, if_true]

/-- From any other node with a parent the climb ends. -/
theorem climb_other {n : Nat} {r owner : Ref} {op : Option Operator}
    {left right above : Option Ref} (hr : g.parent? r = some owner)
    (howner : g.node? owner = some ⟨.operator op left right, above⟩)
    (hne : right ≠ some r) :
    g.climb (n + 1) r = .ok false := by
  rw [climb, hr]
  simp only [content?_of_node? howner]
  rw [if_neg hne]

/-- Where there is no parent the climb has arrived. -/
theorem climb_top {n : Nat} {r : Ref} (hr : g.parent? r = none) :
    g.climb (n + 1) r = .ok true := by
  rw [climb, hr]

-- =========================================================== the climb

/-- A climb inside a plan takes fewer steps than the plan has places: it
comes to the top from a place on the edge, and ends on the way from any
other. -/
theorem Stands.climb_eq (hp : g.Stands up p) (hd : p.refs.Nodup) {h r : Ref}
    (htop : p.top = some h) (hr : r ∈ p.refs) :
    ∃ k < p.refs.length, ∀ n, g.climb (n + k + 1) r
      = if r ∈ p.edge then g.climb (n + 1) h else .ok false := by
  induction p generalizing up h with
  | vacant => cases hr
  | leaf s x =>
      injection htop with htop
      subst htop
      rw [List.mem_singleton.1 hr]
      exact ⟨0, Nat.one_pos, fun n => (if_pos (List.mem_singleton_self _)).symm⟩
  | node s op left right ihl ihr =>
      injection htop with htop
      subst htop
      obtain ⟨hs, hl, ht⟩ := hp
      obtain ⟨hdl, hdr, hsl, hsr, hdisj⟩ := Plan.nodup_node hd
      have hlen : (Plan.node s op left right).refs.length
          = left.refs.length + (right.refs.length + 1) := by
        rw [Plan.refs, List.length_append, List.length_cons]
      rcases Plan.mem_refs_node.1 hr with hrl | rfl | hright
      · -- from the left operand: every climb ends at its top, at the latest
        obtain ⟨c, hc⟩ := Plan.exists_top_of_mem hrl
        have hcl := Plan.mem_refs_of_top hc
        have hne : right.top ≠ some c := fun hcr =>
          hdisj c hcl (Plan.mem_refs_of_top hcr)
        have hnot : r ∉ (Plan.node s op left right).edge := by
          intro hmem
          rcases List.mem_cons.1 hmem with rfl | hmem
          · exact hsl hrl
          · exact hdisj r hrl (Plan.edge_subset_refs right hmem)
        obtain ⟨k, hk, hclimb⟩ := ihl hl hdl hc hrl
        refine ⟨k + 1, by omega, fun n => ?_⟩
        rw [if_neg hnot, show n + (k + 1) + 1 = n + 1 + k + 1 by omega,
          hclimb, climb_other (hl.parent?_top hc) hs hne, ite_self]
      · exact ⟨0, by omega, fun n => (if_pos (List.mem_cons_self ..)).symm⟩
      · -- from the right operand: one step more than to its top
        obtain ⟨c, hc⟩ := Plan.exists_top_of_mem hright
        have hs' := hs
        rw [hc] at hs'
        have hiff : r ∈ (Plan.node s op left right).edge
            ↔ r ∈ right.edge := by
          refine ⟨fun hmem => ?_, fun hmem => List.mem_cons_of_mem _ hmem⟩
          rcases List.mem_cons.1 hmem with rfl | hmem
          · exact absurd hright hsr
          · exact hmem
        obtain ⟨k, hk, hclimb⟩ := ihr ht hdr hc hright
        refine ⟨k + 1, by omega, fun n => ?_⟩
        rw [show n + (k + 1) + 1 = n + 1 + k + 1 by omega, hclimb,
          climb_right (ht.parent?_top hc) hs']
        by_cases hmem : r ∈ right.edge
        · rw [if_pos hmem, if_pos (hiff.2 hmem)]
        · rw [if_neg hmem, if_neg (fun hcon => hmem (hiff.1 hcon))]

/-- Climbing tells whether a node lies on the edge. -/
theorem Stands.onRightSpine (hp : g.Stands none p) (hd : p.refs.Nodup)
    {r : Ref} (hr : r ∈ p.refs) :
    g.onRightSpine r = .ok (decide (r ∈ p.edge)) := by
  obtain ⟨h, htop⟩ := Plan.exists_top_of_mem hr
  obtain ⟨k, hk, hclimb⟩ := hp.climb_eq hd htop hr
  have hsize := hp.length_le_size hd
  unfold Graph.onRightSpine
  rw [show g.size = g.size - k - 1 + k + 1 by omega, hclimb,
    climb_top (hp.parent?_top htop)]
  by_cases hmem : r ∈ p.edge
  · rw [if_pos hmem, decide_eq_true hmem]
  · rw [if_neg hmem, decide_eq_false hmem]

-- ========================================================== the search

/-- The search asks first how tightly a candidate binds and then whether
it lies on the spine. -/
theorem displaced?_eq_find? {op : Operator} {onSpine : Ref → Bool}
    {candidates : List Ref}
    (h : ∀ r ∈ candidates, g.onRightSpine r = .ok (onSpine r)) :
    Builder.displaced? g op candidates = .ok (candidates.find? fun r =>
      onSpine r && (g.operator? r).any (op.rank ≤ ·.rank)) := by
  induction candidates with
  | nil => rfl
  | cons r later ih =>
      have hlater := ih fun s hs => h s (List.mem_cons_of_mem _ hs)
      have hr := h r (List.mem_cons_self ..)
      unfold Builder.displaced?
      cases hbinds : (g.operator? r).any (op.rank ≤ ·.rank) with
      | false =>
          rw [if_neg (by simp), hlater,
            List.find?_cons_of_neg (by simp [hbinds])]
      | true =>
          rw [if_pos rfl, hr]
          cases hspine : onSpine r with
          | false =>
              rw [List.find?_cons_of_neg (by simp [hspine])]
              exact hlater
          | true =>
              rw [List.find?_cons_of_pos (by simp [hspine, hbinds])]
              rfl

/-- What an operator displaces is the highest operator of the spine that
binds at least as tightly. -/
theorem Stands.displaced? (hp : g.Stands none p) (hd : p.refs.Nodup)
    (op : Operator) :
    Builder.displaced? g op p.operators
      = .ok ((p.spine.find? (op.rank ≤ ·.2.rank)).map (·.1)) := by
  have hask : ∀ r ∈ p.operators,
      g.onRightSpine r = .ok (decide (r ∈ p.edge)) := fun r hr =>
    hp.onRightSpine hd (Plan.operators_subset_refs p hr)
  have hsearch : p.operators.find? (fun r =>
        decide (r ∈ p.edge) && (g.operator? r).any (op.rank ≤ ·.rank))
      = (p.operators.filter (· ∈ p.edge)).find? fun r =>
        (g.operator? r).any (op.rank ≤ ·.rank) := by
    rw [List.find?_filter]
    simp only [Bool.decide_and, Bool.decide_eq_true]
  rw [displaced?_eq_find? hask, hsearch, Plan.operators_filter_edge hd,
    hp.find?_spine fun o => op.rank ≤ o.rank]

end Formula.Graph
