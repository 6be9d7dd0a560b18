/-
What an operator displaces.  The search goes through all operators that
were ever added, oldest first, and asks of each by climbing whether it
still lies on the right spine.  That it finds the topmost one that binds
at least as tightly rests on an order that the search itself does not
look at: the operators of the history that still climb to the top are
the operators met on the way down, in the same order.  They bind more
and more tightly, and as there are two ranks there are at most two of
them.
-/
import Formula.Proofs.Builder.Run
import Formula.Proofs.Plan.Path

namespace Formula

/-- Whether climbing from a node says that it lies on the right spine. -/
def Graph.climbs (g : Graph) (r : Ref) : Bool :=
  match g.onRightSpine r with
  | .ok answer => answer
  | .error _ => false

variable {g : Graph} {up : Option Ref} {p : Plan}

/-- The operator nodes on the edge are the spine. -/
theorem Graph.Stands.edge_filter_operators (hp : g.Stands up p) :
    p.edge.filter (fun r => g.holder (some r) = .operator)
      = p.spine.map (·.1) := by
  induction p generalizing up with
  | vacant => rfl
  | leaf r x =>
      have hval : g.holder (some r) = .value := holder_of_node? hp
      refine List.filter_cons_of_neg ?_
      rw [hval]
      exact Bool.false_ne_true
  | node r op left right _ ihr =>
      have hop : g.holder (some r) = .operator := holder_of_node? hp.1
      show (r :: right.edge).filter _ = r :: right.spine.map (·.1)
      rw [List.filter_cons_of_pos (by simpa using hop), ihr hp.2.2]

theorem Operator.rank_le_one (op : Operator) : op.rank ≤ 1 := by
  cases op with
  | add | sub => exact Nat.zero_le 1
  | mul | div => exact Nat.le_refl 1

/-- A rising spine has at most as many operators as there are ranks. -/
theorem Plan.Rising.length_spine_le (h : p.Rising) : p.spine.length ≤ 2 := by
  unfold Plan.Rising at h
  match hspine : p.spine with
  | [] => exact Nat.zero_le 2
  | [_] => exact Nat.le_succ 1
  | [_, _] => exact Nat.le_refl 2
  | a :: b :: c :: rest =>
      rw [hspine] at h
      obtain ⟨hab, hrest⟩ := List.pairwise_cons.1 h
      obtain ⟨hbc, -⟩ := List.pairwise_cons.1 hrest
      have h₁ := hab b (List.mem_cons_self ..)
      have h₂ := hbc c (List.mem_cons_self ..)
      have h₃ := c.2.rank_le_one
      omega

/-- The operators of a plan that climb to its top are its spine. -/
theorem Graph.Stands.operators_filter_climbs (hp : g.Stands none p)
    (hd : p.refs.Nodup) :
    p.operators.filter g.climbs = p.spine.map (·.1) := by
  rw [← Plan.operators_filter_edge hd]
  refine List.filter_congr fun r hr => ?_
  unfold climbs
  rw [hp.onRightSpine hd (Plan.operators_subset_refs p hr)]

namespace Builder

/-- Whatever is called on a new builder, refused calls included: the
operators of its history that climb to the top are the operators met on
the way down from its head, from the top; they bind more and more
tightly, so there are at most two; and an operator displaces the topmost
of them that binds at least as tightly, if any does. -/
theorem displaced?_run_eq_topmost (g : Graph) (calls : List Call) :
    let s := (Bench.new g).run calls
    ∃ spine, s.graph.Descent s.builder.head spine
      ∧ let pending := spine.filter fun r =>
          s.graph.holder (some r) = .operator
        (∀ r ∈ s.builder.history,
          s.graph.onRightSpine r = .ok (decide (r ∈ spine)))
        ∧ s.builder.history.filter s.graph.climbs = pending
        ∧ (pending.Pairwise fun a b => ∃ o o', s.graph.operator? a = some o
          ∧ s.graph.operator? b = some o' ∧ o.rank < o'.rank)
        ∧ pending.length ≤ 2
        ∧ ∀ op : Operator, displaced? s.graph op s.builder.history
          = .ok (pending.find? fun r =>
            (s.graph.operator? r).any (op.rank ≤ ·.rank)) := by
  intro s
  obtain ⟨p, hs⟩ := Bench.exists_sound g calls
  have hstands : s.graph.Stands none p := hs.grown.stands
  have hhead : s.builder.head = p.top := hs.grown.head
  have hhist : s.builder.history = p.operators := hs.grown.history
  have hd := hs.grown.distinct
  have hask : ∀ r ∈ p.operators,
      s.graph.onRightSpine r = .ok (decide (r ∈ p.edge)) := fun r hr =>
    hstands.onRightSpine hd (Plan.operators_subset_refs p hr)
  refine ⟨p.edge, ?_, ?_⟩
  · rw [hhead]
    exact hstands.descent
  · intro pending
    have hpending : pending = p.spine.map (·.1) := hstands.edge_filter_operators
    rw [hhist, hpending]
    refine ⟨hask, hstands.operators_filter_climbs hd, ?_, ?_, ?_⟩
    · rw [List.pairwise_map]
      refine hs.grown.rising.imp_of_mem fun ha hb hlt => ?_
      exact ⟨_, _, hstands.operator?_spine ha, hstands.operator?_spine hb, hlt⟩
    · rw [List.length_map]
      exact hs.grown.rising.length_spine_le
    · intro op
      rw [hstands.displaced? hd op,
        hstands.find?_spine fun o => op.rank ≤ o.rank]

end Builder

end Formula
