/-
Nothing that is handed over is lost, doubled or moved.  However a run on a
builder goes, the tree below the builder's head, read from left to right,
is what the tokens that were taken stand for, in the order in which they
were taken.

`Reads` is that reading, on the graph itself: it follows the operand links
and asks nothing of the parents or of the builder.  A graph that stands by
a plan reads as the plan's items (`Stands.reads`), and a token that is
taken adds its item at their end (`Plan.items_grow`), whatever part of the
tree the item was put in.

The walks of the graph are pre-order walks.  They meet the values in the
order in which they are written (`Stands.values_preorder`), and the
operators in another one: the history has the operators as they are
written, and the walk a permutation of it (`Stands.refs_filter`).
-/
import Formula.Proofs.Plan.Reading
import Formula.Proofs.Worker.Transcript

namespace Formula

namespace Graph

/-- Reading a graph from left to right, from a place that may be empty: an
operator comes between what its operands read as, and a missing operand
reads as nothing. -/
inductive Reads (g : Graph) : Option Ref → List Item → Prop
  | nothing : Reads g none []
  | value {r : Ref} {x : Float} (hx : g.value? r = some x) :
      Reads g (some r) [.number x]
  | operator {r : Ref} {op : Operator} {left right : List Item}
      (hop : g.operator? r = some op) (hl : Reads g (g.operand? r .left) left)
      (hr : Reads g (g.operand? r .right) right) :
      Reads g (some r) (left ++ .operator op :: right)

variable {g : Graph} {up : Option Ref} {p : Plan}

theorem value?_of_node? {r : Ref} {x : Float} {above : Option Ref}
    (h : g.node? r = some ⟨.value x, above⟩) : g.value? r = some x := by
  unfold value?
  rw [content?_of_node? h]

/-- No node holds both a number and an operator. -/
theorem operator?_of_value? {r : Ref} {x : Float} (h : g.value? r = some x) :
    g.operator? r = none := by
  unfold value? at h
  unfold operator?
  split at h
  · next hcontent => rw [hcontent]
  · cases h

/-- There is one reading at most. -/
theorem Reads.unique {root : Option Ref} {a b : List Item}
    (ha : g.Reads root a) (hb : g.Reads root b) : a = b := by
  induction ha generalizing b with
  | nothing =>
      cases hb
      rfl
  | value hx =>
      cases hb with
      | value hy => rw [Option.some.inj (hx.symm.trans hy)]
      | operator hop _ _ =>
          rw [operator?_of_value? hx] at hop
          cases hop
  | operator hop _ _ ihl ihr =>
      cases hb with
      | value hy =>
          rw [operator?_of_value? hy] at hop
          cases hop
      | operator hop' hl' hr' =>
          rw [ihl hl', ihr hr', Option.some.inj (hop.symm.trans hop')]

-- ==================================================== readings of a plan

/-- A graph reads as the plan that it stands by. -/
theorem Stands.reads (hp : g.Stands up p) : g.Reads p.top p.items := by
  induction p generalizing up with
  | vacant => exact .nothing
  | leaf r x => exact .value (value?_of_node? hp)
  | node r op left right ihl ihr =>
      refine .operator (operator?_of_node? hp.1) ?_ ?_
      · rw [hp.operand?_node.1]
        exact ihl hp.2.1
      · rw [hp.operand?_node.2]
        exact ihr hp.2.2

/-- Pre-order meets the values as they are written. -/
theorem Stands.values_preorder (hp : g.Stands up p) :
    (p.preorder.filter fun r => g.holder (some r) = .value).map g.value?
      = (p.items.filterMap (·.number?)).map some := by
  induction p generalizing up with
  | vacant => rfl
  | leaf r x =>
      have hholder : g.holder (some r) = .value := holder_of_node? hp
      simp [Plan.preorder, Plan.items, hholder, value?_of_node? hp]
  | node r op left right ihl ihr =>
      have hholder : g.holder (some r) = .operator := holder_of_node? hp.1
      simp [Plan.preorder, Plan.items, hholder, ihl hp.2.1, ihr hp.2.2,
        List.filterMap_cons]

/-- The operators of a plan are those of its items. -/
theorem Stands.operators_items (hp : g.Stands up p) :
    p.operators.map g.operator?
      = (p.items.filterMap (·.operator?)).map some := by
  induction p generalizing up with
  | vacant => rfl
  | leaf r x => rfl
  | node r op left right ihl ihr =>
      simp [Plan.operators, Plan.items, operator?_of_node? hp.1, ihl hp.2.1,
        ihr hp.2.2]

/-- The operators are the places that hold an operator node. -/
theorem Stands.refs_filter (hp : g.Stands up p) :
    (p.refs.filter fun r => g.holder (some r) = .operator) = p.operators := by
  induction p generalizing up with
  | vacant => rfl
  | leaf r x =>
      have hholder : g.holder (some r) = .value := holder_of_node? hp
      simp [Plan.refs, Plan.operators, hholder]
  | node r op left right ihl ihr =>
      have hholder : g.holder (some r) = .operator := holder_of_node? hp.1
      simp [Plan.refs, Plan.operators, hholder, ihl hp.2.1, ihr hp.2.2]

/-- The walk down from the top of a plan. -/
theorem Stands.nodesBelow_eq (hp : g.Stands up p) (hd : p.refs.Nodup) :
    p.top.toList.flatMap (g.nodesBelow .depthFirst) = p.preorder := by
  have hwalk := hp.depthFirst_eq (hp.length_le_size hd) []
  rw [depthFirst, List.append_nil, List.append_nil] at hwalk
  cases htop : p.top with
  | none =>
      rw [Plan.eq_vacant_of_top htop]
      rfl
  | some h =>
      rw [htop] at hwalk
      simpa [nodesBelow] using hwalk

end Graph

namespace Desk

variable {d : Desk} {p : Plan}

-- ============================================================ every run

/-- What a call takes is written after what was there. -/
theorem Grown.items_call (hd : d.Grown p) (c : Call) :
    ∃ p' items, (d.call c).2.Grown p' ∧ p'.items = p.items ++ items
      ∧ ((d.transcript [c]).filterMap (·.taken?)).map Item.ofToken?
        = items.map some := by
  rw [transcript]
  cases hd.call_cases c with
  | refused e hcall _ =>
      rw [hcall]
      refine ⟨p, [], hd, (List.append_nil _).symm, ?_⟩
      cases c <;> rfl
  | taken token item d' _ hread hcall hadv =>
      rw [hcall]
      refine ⟨_, [item], hadv.grown, Plan.items_grow hd.fits hread, ?_⟩
      exact congrArg (fun read => [read]) (Item.ofToken?_of_read? hread)
  | built _ _ hcall =>
      rw [hcall]
      exact ⟨p, [], Builder.Grown.finalize hd, (List.append_nil _).symm, rfl⟩

theorem Grown.items_after (hd : d.Grown p) (calls : List Call) :
    ∃ p' items, (d.after calls).Grown p' ∧ p'.items = p.items ++ items
      ∧ ((d.transcript calls).filterMap (·.taken?)).map Item.ofToken?
        = items.map some := by
  induction calls generalizing d p with
  | nil => exact ⟨p, [], hd, (List.append_nil _).symm, rfl⟩
  | cons c calls ih =>
      obtain ⟨p₁, first, hd₁, hp₁, hfirst⟩ := hd.items_call c
      obtain ⟨p', items, hd', hp', hitems⟩ := ih hd₁
      refine ⟨p', first ++ items, hd', ?_, ?_⟩
      · rw [hp', hp₁, List.append_assoc]
      · have hsplit : d.transcript (c :: calls)
            = d.transcript [c] ++ (d.call c).2.transcript calls := rfl
        rw [hsplit, List.filterMap_append, List.map_append, hfirst, hitems,
          List.map_append]

/-- However a run on a new builder goes, what was taken is there, in its
order: the tree reads as the items that the taken tokens stand for; the
value nodes that a walk meets hold their numbers, and the history has
their operators; the history repeats nothing and is a permutation of the
operator nodes that a walk meets; and there are as many nodes below the
head as tokens were taken. -/
theorem taken_in_order (g : Graph) (log : Log) (logger : LoggerId)
    (calls : List Call) :
    let d := (new g log logger).after calls
    let b := d.worker.builder
    let taken := ((new g log logger).transcript calls).filterMap (·.taken?)
    ∃ items : List Item, taken.map Item.ofToken? = items.map some
      ∧ (∀ read, d.graph.Reads b.head read ↔ read = items)
      ∧ (b.head.toList.flatMap d.graph.valuesBelow).map d.graph.value?
        = (items.filterMap (·.number?)).map some
      ∧ b.history.map d.graph.operator?
        = (items.filterMap (·.operator?)).map some
      ∧ b.history.Nodup
      ∧ b.history.Perm (b.head.toList.flatMap d.graph.operatorsBelow)
      ∧ b.head.elim 0 d.graph.countBelow = taken.length := by
  intro d b taken
  obtain ⟨p, items, hd, hitems, htaken⟩ :=
    (grown_new g log logger).items_after calls
  rw [Plan.items, List.nil_append] at hitems
  have hhead : b.head = p.top := hd.head
  have hhistory : b.history = p.operators := hd.history
  have hreads := hd.stands.reads
  have hwalk : p.top.toList.flatMap (d.graph.nodesBelow .depthFirst)
      = p.preorder := hd.stands.nodesBelow_eq hd.distinct
  rw [hitems] at hreads
  refine ⟨items, htaken, fun read => ?_, ?_, ?_, ?_, ?_, ?_⟩
  · rw [hhead]
    refine ⟨fun hread => hread.unique hreads, ?_⟩
    rintro rfl
    exact hreads
  · rw [hhead, ← hitems, ← hd.stands.values_preorder, ← hwalk,
      List.filter_flatMap]
    rfl
  · rw [hhistory, ← hitems]
    exact hd.stands.operators_items
  · rw [hhistory]
    exact Plan.operators_nodup hd.distinct
  · have hmet : p.top.toList.flatMap d.graph.operatorsBelow
        = p.preorder.filter fun r => d.graph.holder (some r) = .operator := by
      rw [← hwalk, List.filter_flatMap]
      rfl
    rw [hhistory, hhead, hmet, ← hd.stands.refs_filter]
    exact (p.preorder_perm_refs.filter _).symm
  · have hcount : b.head.elim 0 d.graph.countBelow = p.preorder.length := by
      rw [hhead, ← hwalk]
      cases p.top <;> simp [Graph.countBelow]
    have hlength := congrArg List.length htaken
    rw [List.length_map, List.length_map] at hlength
    rw [hcount, p.preorder_perm_refs.length_eq, ← p.length_items, hitems]
    exact hlength.symm

end Desk

end Formula
