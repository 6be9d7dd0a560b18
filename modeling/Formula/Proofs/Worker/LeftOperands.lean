/-
Left operands are settled.  A plan grows along its edge and nowhere else:
a number fills the vacancy at the end of the edge, an operator takes the
place of a part that hangs there.  What is below a left operand is off the
edge, and what is off the edge never comes back to it.

# How a run goes on

`Continues d p d' p'` is what every run keeps between two desks and their
plans.  Each operator of the earlier plan has its left part in the later
one (`lefts`), the edge has gained new places only (`edge`), and a place
that was off the edge holds the node it held (`kept`).  One call goes on
like that (`Grown.continues_call`) and the relation composes, because a
place off the first edge is off the second; so every run does
(`Grown.continues_after`).
-/
import Formula.Proofs.Plan.Path
import Formula.Proofs.Worker.Transcript

namespace Formula

namespace Plan

-- ========================================================== left parts

/-- In the plan, the operator node at `n` has `l` as its left part. -/
def HasLeft : Plan → Ref → Plan → Prop
  | .vacant, _, _ => False
  | .leaf _ _, _, _ => False
  | .node r _ left right, n, l =>
      r = n ∧ left = l ∨ left.HasLeft n l ∨ right.HasLeft n l

variable {n m : Ref} {l p : Plan}

theorem exists_hasLeft (h : n ∈ p.operators) : ∃ l, p.HasLeft n l := by
  induction p with
  | vacant => cases h
  | leaf r x => cases h
  | node r op left right ihl ihr =>
      rcases mem_operators_node.1 h with h | rfl | h
      · obtain ⟨l, hl⟩ := ihl h
        exact ⟨l, .inr (.inl hl)⟩
      · exact ⟨left, .inl ⟨rfl, rfl⟩⟩
      · obtain ⟨l, hl⟩ := ihr h
        exact ⟨l, .inr (.inr hl)⟩

theorem HasLeft.mem_operators (h : p.HasLeft n l) : n ∈ p.operators := by
  induction p with
  | vacant => exact h.elim
  | leaf r x => exact h.elim
  | node r op left right ihl ihr =>
      rcases h with ⟨rfl, -⟩ | h | h
      · exact mem_operators_node.2 (.inr (.inl rfl))
      · exact mem_operators_node.2 (.inl (ihl h))
      · exact mem_operators_node.2 (.inr (.inr (ihr h)))

theorem HasLeft.subset_refs (h : p.HasLeft n l) : l.refs ⊆ p.refs := by
  induction p with
  | vacant => exact h.elim
  | leaf r x => exact h.elim
  | node r op left right ihl ihr =>
      intro s hs
      rcases h with ⟨-, rfl⟩ | h | h
      · exact mem_refs_node.2 (.inl hs)
      · exact mem_refs_node.2 (.inl (ihl h hs))
      · exact mem_refs_node.2 (.inr (.inr (ihr h hs)))

/-- A left part has no place on the edge. -/
theorem HasLeft.notMem_edge (h : p.HasLeft n l) (hd : p.refs.Nodup) {s : Ref}
    (hs : s ∈ l.refs) : s ∉ p.edge := by
  induction p with
  | vacant => exact h.elim
  | leaf r x => exact h.elim
  | node r op left right _ ihr =>
      obtain ⟨-, hdr, hrl, hrr, hdisj⟩ := nodup_node hd
      have hoff : s ∈ left.refs → s ∉ (Plan.node r op left right).edge := by
        intro hsl hmem
        rcases List.mem_cons.1 hmem with rfl | hmem
        · exact hrl hsl
        · exact hdisj s hsl (edge_subset_refs right hmem)
      rcases h with ⟨-, rfl⟩ | h | h
      · exact hoff hs
      · exact hoff (h.subset_refs hs)
      · intro hmem
        rcases List.mem_cons.1 hmem with rfl | hmem
        · exact hrr (h.subset_refs hs)
        · exact ihr h hdr hmem

/-- The only vacancy is on the edge, so a left part is complete. -/
theorem HasLeft.complete (h : p.HasLeft n l) (hp : p.Complete ∨ p.Open) :
    l.Complete := by
  induction p with
  | vacant => exact h.elim
  | leaf r x => exact h.elim
  | node r op left right ihl ihr =>
      have hleft : left.Complete := hp.elim (·.1) (·.1)
      rcases h with ⟨-, rfl⟩ | h | h
      · exact hleft
      · exact ihl h (.inl hleft)
      · exact ihr h (hp.imp (·.2) (·.2))

/-- Growing leaves every operator its left part: an operator takes the
place of a whole part, and has that as its left part itself. -/
theorem HasLeft.grow (h : p.HasLeft n l) (item : Item) :
    (p.grow m item).HasLeft n l := by
  induction p with
  | vacant => exact h.elim
  | leaf r x => exact h.elim
  | node r o left right _ ihr =>
      have hbelow : (Plan.node r o left (right.grow m item)).HasLeft n l :=
        h.imp_right (.imp_right ihr)
      cases item with
      | number x => exact hbelow
      | operator op =>
          rw [Plan.grow, splice]
          split
          · exact .inr (.inl h)
          · exact hbelow

/-- The edge gains no place but the new one. -/
theorem mem_edge_grow {item : Item} {r : Ref}
    (h : r ∈ (p.grow m item).edge) : r ∈ p.edge ∨ r = m := by
  induction p with
  | vacant => cases item <;> exact .inr (List.mem_singleton.1 h)
  | leaf s x =>
      cases item with
      | number y => exact .inl h
      | operator op => exact .inr (List.mem_singleton.1 h)
  | node s o left right _ ihr =>
      have hbelow : r ∈ (Plan.node s o left (right.grow m item)).edge →
          r ∈ (Plan.node s o left right).edge ∨ r = m := by
        intro hmem
        rcases List.mem_cons.1 hmem with rfl | hmem
        · exact .inl (List.mem_cons_self ..)
        · exact (ihr hmem).imp_left (List.mem_cons_of_mem _)
      cases item with
      | number x => exact hbelow h
      | operator op =>
          rw [grow, splice] at h
          split at h
          · exact .inr (List.mem_singleton.1 h)
          · exact hbelow h

end Plan

namespace Graph

/-- From one graph to a later one a node keeps its left operand, and every
node below that stays as it is, in what it holds and in its parent; and if
the node was off the right spine it still is. -/
structure Settled (g g' : Graph) (n : Ref) : Prop where
  left : ∃ l, g.operand? n .left = some l ∧ g'.operand? n .left = some l
    ∧ (∀ r, g'.Reaches l r ↔ g.Reaches l r)
    ∧ ∀ r, g.Reaches l r →
      ∃ node, g.node? r = some node ∧ g'.node? r = some node
  spine : ∃ on on', g.onRightSpine n = .ok on ∧ g'.onRightSpine n = .ok on'
    ∧ (on = false → on' = false)

/-- A left part of a plan stands in the graph below its operator node. -/
theorem Stands.hasLeft {g : Graph} {up : Option Ref} {n : Ref}
    {l p : Plan} (hp : g.Stands up p) (h : p.HasLeft n l) :
    g.operand? n .left = l.top ∧ g.Stands (some n) l := by
  induction p generalizing up with
  | vacant => exact h.elim
  | leaf r x => exact h.elim
  | node r op left right ihl ihr =>
      rcases h with ⟨rfl, rfl⟩ | h | h
      · exact ⟨hp.operand?_node.1, hp.2.1⟩
      · exact ihl hp.2.1 h
      · exact ihr hp.2.2 h

end Graph

namespace Desk

-- ======================================================== how a run goes on

/-- What is kept from one desk of a run to a later one. -/
structure Continues (d : Desk) (p : Plan) (d' : Desk) (p' : Plan) : Prop where
  grown : d'.Grown p'
  lefts : ∀ n l, p.HasLeft n l → p'.HasLeft n l
  edge : ∀ r ∈ p'.edge, r < d.graph.size → r ∈ p.edge
  size : d.graph.size ≤ d'.graph.size
  kept : ∀ r < d.graph.size, r ∉ p.edge → d'.graph.node? r = d.graph.node? r

variable {d d' d'' : Desk} {p p' p'' : Plan}

theorem Grown.continues_refl (hd : d.Grown p) : Continues d p d p :=
  ⟨hd, fun _ _ h => h, fun _ hr _ => hr, Nat.le_refl _, fun _ _ _ => rfl⟩

theorem Continues.trans (h : Continues d p d' p')
    (h' : Continues d' p' d'' p'') : Continues d p d'' p'' where
  grown := h'.grown
  lefts n l hl := h'.lefts n l (h.lefts n l hl)
  edge r hr hlt := h.edge r (h'.edge r hr (Nat.lt_of_lt_of_le hlt h.size)) hlt
  size := Nat.le_trans h.size h'.size
  kept r hlt hoff := by
    -- off the first edge, and so off the second
    have hoff' : r ∉ p'.edge := fun hr => hoff (h.edge r hr hlt)
    exact (h'.kept r (Nat.lt_of_lt_of_le hlt h.size) hoff').trans
      (h.kept r hlt hoff)

theorem Grown.continues_call (hd : d.Grown p) (c : Call) :
    ∃ p', Continues d p (d.call c).2 p' := by
  cases hd.call_cases c with
  | refused e hcall _ =>
      rw [hcall]
      exact ⟨p, hd.continues_refl⟩
  | taken token item d' _ _ hcall hadv =>
      rw [hcall]
      refine ⟨_, hadv.grown, fun n l hl => hl.grow item, ?_, ?_, hadv.kept⟩
      · intro r hr hlt
        exact (Plan.mem_edge_grow hr).resolve_right (Nat.ne_of_lt hlt)
      · rw [hadv.size]
        exact Nat.le_succ _
  | built _ _ hcall =>
      rw [hcall]
      have hclosed : d.closed.Grown p := Builder.Grown.finalize hd
      exact ⟨p, hclosed, fun _ _ h => h, fun _ hr _ => hr, Nat.le_refl _,
        fun _ _ _ => rfl⟩

theorem Grown.continues_after (hd : d.Grown p) (calls : List Call) :
    ∃ p', Continues d p (d.after calls) p' := by
  induction calls generalizing d p with
  | nil => exact ⟨p, hd.continues_refl⟩
  | cons c calls ih =>
      obtain ⟨p', hstep⟩ := hd.continues_call c
      obtain ⟨p'', hrun⟩ := ih hstep.grown
      exact ⟨p'', hstep.trans hrun⟩

/-- Between calls a plan is complete or open. -/
theorem Grown.complete_or_open (hd : d.Grown p) : p.Complete ∨ p.Open := by
  cases he : d.worker.builder.expected with
  | value => exact .inr (Builder.Grown.isOpen hd he)
  | operator => exact .inl (Builder.Grown.isComplete hd he)

theorem Grown.onRightSpine (hd : d.Grown p) {n : Ref} (hn : n ∈ p.operators) :
    d.graph.onRightSpine n = .ok (decide (n ∈ p.edge)) :=
  hd.stands.onRightSpine hd.distinct (Plan.operators_subset_refs p hn)

-- ============================================================ every run

/-- However a run on a builder goes on, every operator node that is there
is settled. -/
theorem left_operands_settled (g : Graph) (log : Log) (logger : LoggerId)
    (calls later : List Call) :
    let d := (new g log logger).after calls
    ∀ n ∈ d.worker.builder.history,
      d.graph.Settled (d.after later).graph n := by
  intro d n hn
  obtain ⟨p, hd⟩ := (grown_new g log logger).after calls
  obtain ⟨p', hrun⟩ := hd.continues_after later
  have hnp : n ∈ p.operators := hd.history ▸ hn
  have hlt : ∀ r ∈ p.refs, r < d.graph.size := fun r hr =>
    hd.stands.lt_size hr
  obtain ⟨left, hleft⟩ := Plan.exists_hasLeft hnp
  have hleft' := hrun.lefts n left hleft
  obtain ⟨hop, hbelow⟩ := hd.stands.hasLeft hleft
  obtain ⟨hop', hbelow'⟩ := hrun.grown.stands.hasLeft hleft'
  refine ⟨?_, decide (n ∈ p.edge), decide (n ∈ p'.edge), hd.onRightSpine hnp,
    hrun.grown.onRightSpine hleft'.mem_operators, ?_⟩
  · obtain ⟨l, htop⟩ := Option.ne_none_iff_exists'.1
      (hleft.complete hd.complete_or_open).top_ne_none
    refine ⟨l, hop.trans htop, hop'.trans htop, fun r => ?_, fun r hr => ?_⟩
    · rw [hbelow.reaches_iff htop, hbelow'.reaches_iff htop]
    · have hmem := (hbelow.reaches_iff htop).1 hr
      have hin := hlt r (hleft.subset_refs hmem)
      obtain ⟨node, hnode⟩ : ∃ node, d.graph.node? r = some node :=
        ⟨_, Array.getElem?_eq_getElem hin⟩
      have hkept := hrun.kept r hin (hleft.notMem_edge hd.distinct hmem)
      exact ⟨node, hnode, hkept.trans hnode⟩
  · intro hoff
    refine decide_eq_false fun hmem => ?_
    exact of_decide_eq_false hoff
      (hrun.edge n hmem (hlt n (Plan.operators_subset_refs p hnp)))

/-- A product that is the left operand of a difference stays so when the
difference becomes the left operand of a sum. -/
theorem left_operands_settled_difference :
    let d := (new .empty {} 0).after
      [.add "2", .add "*", .add "3", .add "-"]
    let d' := d.after [.add "4", .add "+", .add "5", .build]
    d'.graph.operand? 3 .left = some 1
      ∧ (∀ r, d'.graph.Reaches 1 r ↔ d.graph.Reaches 1 r)
      ∧ d'.graph.onRightSpine 1 = .ok false := by
  intro d d'
  have hhistory : d.worker.builder.history = [1, 3] := by decide +kernel
  have hleft : d.graph.operand? 3 .left = some 1 := by decide +kernel
  have hoff : (d.graph.onRightSpine 1).toOption = some false := by
    decide +kernel
  have hsettled : ∀ n ∈ d.worker.builder.history, d.graph.Settled d'.graph n :=
    left_operands_settled .empty {} 0
      [.add "2", .add "*", .add "3", .add "-"]
      [.add "4", .add "+", .add "5", .build]
  clear_value d' d
  rw [hhistory] at hsettled
  obtain ⟨l, hl, hl', hreach, -⟩ := (hsettled 3 (by simp)).left
  obtain ⟨on, on', hon, hon', hstays⟩ := (hsettled 1 (by simp)).spine
  rw [hl] at hleft
  injection hleft with hleft
  subst hleft
  rw [hon] at hoff
  injection hoff with hoff
  rw [hstays hoff] at hon'
  exact ⟨hl', hreach, hon'⟩

end Desk

end Formula
