/-
Walking a graph down from a node, and where the walks lead when the graph
stands by a plan.

`follow` goes along a given path of operands, `Descent` along right
operands to the end.  Below the top of a plan the paths lead to the
plan's places and nowhere else (`Stands.reaches_iff`), to each by one
path only if the places are distinct (`Stands.path_unique`), and the
descent meets the plan's edge (`Stands.descent`).

The rest reads single nodes off a plan: which places hold operator nodes,
which operands they have, and what is above the end of the edge.
-/
import Formula.Proofs.Plan

namespace Formula

namespace Graph

/-- Where a path of operands leads. -/
def follow (g : Graph) : Ref → List Side → Option Ref
  | r, [] => some r
  | r, side :: path =>
      match g.operand? r side with
      | none => none
      | some c => g.follow c path

/-- Some path of operands leads from one node to another. -/
def Reaches (g : Graph) (h r : Ref) : Prop := ∃ path, g.follow h path = some r

/-- The nodes met on the way down along right operands, from a place that
may be empty. -/
inductive Descent (g : Graph) : Option Ref → List Ref → Prop
  | done : Descent g none []
  | down {r : Ref} {below : List Ref} :
      Descent g (g.operand? r .right) below → Descent g (some r) (r :: below)

variable {g : Graph} {up : Option Ref} {p : Plan}

-- ======================================================== single nodes

/-- The operands of an operator node are the tops of its parts. -/
theorem Stands.operand?_node {r : Ref} {op : Operator} {left right : Plan}
    (hp : g.Stands up (.node r op left right)) :
    g.operand? r .left = left.top ∧ g.operand? r .right = right.top :=
  ⟨operand?_of_node? hp.1 .left, operand?_of_node? hp.1 .right⟩

theorem Stands.operand?_leaf {r : Ref} {x : Float}
    (hp : g.Stands up (.leaf r x)) (side : Side) : g.operand? r side = none :=
  operand?_of_node? hp side

/-- A planned place holds a value node, or an operator node with an
operator. -/
theorem Stands.node?_cases (hp : g.Stands up p) {r : Ref} (hr : r ∈ p.refs) :
    (∃ x above, g.node? r = some ⟨.value x, above⟩)
      ∨ ∃ op left right above,
        g.node? r = some ⟨.operator (some op) left right, above⟩ := by
  induction p generalizing up with
  | vacant => cases hr
  | leaf s x =>
      rw [List.mem_singleton.1 hr]
      exact Or.inl ⟨x, up, hp⟩
  | node s op left right ihl ihr =>
      obtain ⟨hs, hl, ht⟩ := hp
      rcases Plan.mem_refs_node.1 hr with hrl | rfl | hright
      · exact ihl hl hrl
      · exact Or.inr ⟨op, left.top, right.top, up, hs⟩
      · exact ihr ht hright

/-- The operators of a plan are the planned places that hold operator
nodes. -/
theorem Stands.mem_operators_iff (hp : g.Stands up p) {r : Ref} :
    r ∈ p.operators ↔ r ∈ p.refs ∧ g.holder (some r) = .operator := by
  induction p generalizing up with
  | vacant => exact ⟨fun h => (List.not_mem_nil h).elim, fun h => h.1⟩
  | leaf s x =>
      refine ⟨fun h => (List.not_mem_nil h).elim, fun ⟨hr, hop⟩ => ?_⟩
      rw [List.mem_singleton.1 hr, holder_of_node? hp] at hop
      cases hop
  | node s op left right ihl ihr =>
      obtain ⟨hs, hl, ht⟩ := hp
      have hhold : g.holder (some s) = .operator := holder_of_node? hs
      rw [Plan.mem_operators_node, Plan.mem_refs_node, ihl hl, ihr ht]
      constructor
      · intro h
        rcases h with ⟨hr, hop⟩ | rfl | ⟨hr, hop⟩
        · exact ⟨Or.inl hr, hop⟩
        · exact ⟨Or.inr (Or.inl rfl), hhold⟩
        · exact ⟨Or.inr (Or.inr hr), hop⟩
      · intro h
        obtain ⟨hr | hr | hr, hop⟩ := h
        · exact Or.inl ⟨hr, hop⟩
        · exact Or.inr (Or.inl hr)
        · exact Or.inr (Or.inr ⟨hr, hop⟩)

/-- An operand of a planned node is planned, and has the node as its
parent. -/
theorem Stands.operand?_mem (hp : g.Stands up p) {r c : Ref} {side : Side}
    (hr : r ∈ p.refs) (hc : g.operand? r side = some c) :
    c ∈ p.refs ∧ g.parent? c = some r := by
  induction p generalizing up with
  | vacant => cases hr
  | leaf s x =>
      rw [List.mem_singleton.1 hr, hp.operand?_leaf] at hc
      cases hc
  | node s op left right ihl ihr =>
      obtain ⟨hleft, hright⟩ := hp.operand?_node
      obtain ⟨hs, hl, ht⟩ := hp
      rw [Plan.mem_refs_node]
      rcases Plan.mem_refs_node.1 hr with hrl | rfl | hrt
      · obtain ⟨hmem, hpar⟩ := ihl hl hrl
        exact ⟨Or.inl hmem, hpar⟩
      · cases side with
        | left =>
            rw [hleft] at hc
            exact ⟨Or.inl (Plan.mem_refs_of_top hc), hl.parent?_top hc⟩
        | right =>
            rw [hright] at hc
            exact ⟨Or.inr (Or.inr (Plan.mem_refs_of_top hc)),
              ht.parent?_top hc⟩
      · obtain ⟨hmem, hpar⟩ := ihr ht hrt
        exact ⟨Or.inr (Or.inr hmem), hpar⟩

-- =============================================================== paths

theorem follow_cons {r c : Ref} {side : Side} (path : List Side)
    (hc : g.operand? r side = some c) :
    g.follow r (side :: path) = g.follow c path := by
  rw [follow, hc]

theorem operand?_of_follow {r x : Ref} {side : Side} {path : List Side}
    (h : g.follow r (side :: path) = some x) :
    ∃ c, g.operand? r side = some c ∧ g.follow c path = some x := by
  rw [follow] at h
  cases hc : g.operand? r side with
  | none =>
      rw [hc] at h
      cases h
  | some c =>
      rw [hc] at h
      exact ⟨c, rfl, h⟩

theorem follow_append {r c : Ref} {path : List Side} (path' : List Side)
    (h : g.follow r path = some c) :
    g.follow r (path ++ path') = g.follow c path' := by
  induction path generalizing r with
  | nil => rw [Option.some.inj h, List.nil_append]
  | cons side path ih =>
      obtain ⟨d, hd, hrest⟩ := operand?_of_follow h
      rw [List.cons_append, follow_cons _ hd, ih hrest]

/-- A path to a node starts at a node. -/
theorem lt_size_of_follow {r x : Ref} {path : List Side}
    (h : g.follow r path = some x) (hx : x < g.size) : r < g.size := by
  cases path with
  | nil => exact Option.some.inj h ▸ hx
  | cons side path =>
      obtain ⟨c, hc, -⟩ := operand?_of_follow h
      exact lt_size_of_operand? hc

theorem Reaches.trans {r s x : Ref} (h : g.Reaches r s)
    (h' : g.Reaches s x) : g.Reaches r x := by
  obtain ⟨path, hpath⟩ := h
  obtain ⟨path', hpath'⟩ := h'
  exact ⟨path ++ path', (follow_append path' hpath).trans hpath'⟩

theorem reaches_of_operand? {r c : Ref} {side : Side}
    (h : g.operand? r side = some c) : g.Reaches r c :=
  ⟨[side], follow_cons [] h⟩

/-- What is reached is the start, or reached from one of its operands. -/
theorem reaches_iff {r x : Ref} :
    g.Reaches r x
      ↔ x = r ∨ ∃ side c, g.operand? r side = some c ∧ g.Reaches c x := by
  constructor
  · rintro ⟨_ | ⟨side, path⟩, hpath⟩
    · exact .inl (Option.some.inj hpath).symm
    · obtain ⟨c, hc, hrest⟩ := operand?_of_follow hpath
      exact .inr ⟨side, c, hc, path, hrest⟩
  · rintro (rfl | ⟨side, c, hc, hreach⟩)
    · exact ⟨[], rfl⟩
    · exact (reaches_of_operand? hc).trans hreach

/-- The last link of a path leads from an owner to its operand. -/
theorem exists_owner_of_follow {r x : Ref} {path : List Side} {side : Side}
    (h : g.follow r (path ++ [side]) = some x) :
    ∃ owner, g.follow r path = some owner ∧ g.operand? owner side = some x := by
  induction path generalizing r with
  | nil =>
      obtain ⟨c, hc, hrest⟩ := operand?_of_follow h
      exact ⟨r, rfl, hc.trans hrest⟩
  | cons side' path ih =>
      obtain ⟨c, hc, hrest⟩ := operand?_of_follow h
      obtain ⟨owner, howner, hx⟩ := ih hrest
      exact ⟨owner, (follow_cons path hc).trans howner, hx⟩

/-- What is reached from another node is an operand of something that is
reached. -/
theorem Reaches.exists_owner {r x : Ref} (h : g.Reaches r x) (hne : x ≠ r) :
    ∃ owner side, g.Reaches r owner ∧ g.operand? owner side = some x := by
  obtain ⟨path, hpath⟩ := h
  rcases List.eq_nil_or_concat path with rfl | ⟨path, side, rfl⟩
  · exact absurd (Option.some.inj hpath).symm hne
  · rw [List.concat_eq_append] at hpath
    obtain ⟨owner, howner, hx⟩ := exists_owner_of_follow hpath
    exact ⟨owner, side, ⟨path, howner⟩, hx⟩

/-- A path from a planned place leads to a planned place. -/
theorem Stands.mem_of_follow (hp : g.Stands up p) {r x : Ref}
    {path : List Side} (hr : r ∈ p.refs) (h : g.follow r path = some x) :
    x ∈ p.refs := by
  induction path generalizing r with
  | nil =>
      injection h with h
      rw [← h]
      exact hr
  | cons side path ih =>
      obtain ⟨c, hc, h⟩ := operand?_of_follow h
      exact ih (hp.operand?_mem hr hc).1 h

/-- Every planned place is reached from the top. -/
theorem Stands.reaches (hp : g.Stands up p) {h r : Ref}
    (htop : p.top = some h) (hr : r ∈ p.refs) : g.Reaches h r := by
  induction p generalizing up h with
  | vacant => cases hr
  | leaf s x =>
      injection htop with htop
      rw [List.mem_singleton.1 hr, htop]
      exact ⟨[], rfl⟩
  | node s op left right ihl ihr =>
      injection htop with htop
      subst htop
      obtain ⟨hleft, hright⟩ := hp.operand?_node
      rcases Plan.mem_refs_node.1 hr with hrl | rfl | hrt
      · obtain ⟨c, hc⟩ := Plan.exists_top_of_mem hrl
        obtain ⟨path, hpath⟩ := ihl hp.2.1 hc hrl
        exact ⟨.left :: path, (follow_cons path (hleft.trans hc)).trans hpath⟩
      · exact ⟨[], rfl⟩
      · obtain ⟨c, hc⟩ := Plan.exists_top_of_mem hrt
        obtain ⟨path, hpath⟩ := ihr hp.2.2 hc hrt
        exact ⟨.right :: path,
          (follow_cons path (hright.trans hc)).trans hpath⟩

/-- The top reaches the planned places, and nothing else. -/
theorem Stands.reaches_iff (hp : g.Stands up p) {h r : Ref}
    (htop : p.top = some h) : g.Reaches h r ↔ r ∈ p.refs := by
  refine ⟨fun ⟨path, hpath⟩ => ?_, hp.reaches htop⟩
  exact hp.mem_of_follow (Plan.mem_refs_of_top htop) hpath

/-- A path from the top of an operator node goes on inside one of its
parts. -/
theorem Stands.mem_part_of_follow {s x : Ref} {op : Operator}
    {left right : Plan} {side : Side} {path : List Side}
    (hp : g.Stands up (.node s op left right))
    (h : g.follow s (side :: path) = some x) :
    x ∈ (match side with | .left => left.refs | .right => right.refs) := by
  obtain ⟨c, hc, hrest⟩ := operand?_of_follow h
  obtain ⟨hleft, hright⟩ := hp.operand?_node
  cases side with
  | left =>
      rw [hleft] at hc
      exact hp.2.1.mem_of_follow (Plan.mem_refs_of_top hc) hrest
  | right =>
      rw [hright] at hc
      exact hp.2.2.mem_of_follow (Plan.mem_refs_of_top hc) hrest

/-- Where the places are distinct, only one path leads to each. -/
theorem Stands.path_unique (hp : g.Stands up p) (hd : p.refs.Nodup)
    {h r : Ref} {path path' : List Side} (htop : p.top = some h)
    (hr : g.follow h path = some r) (hr' : g.follow h path' = some r) :
    path = path' := by
  induction p generalizing up h path path' with
  | vacant => cases htop
  | leaf s x =>
      injection htop with htop
      subst htop
      have hend : ∀ q, g.follow s q = some r → q = [] := by
        intro q hq
        cases q with
        | nil => rfl
        | cons side q =>
            obtain ⟨c, hc, -⟩ := operand?_of_follow hq
            rw [hp.operand?_leaf] at hc
            cases hc
      rw [hend path hr, hend path' hr']
  | node s op left right ihl ihr =>
      injection htop with htop
      subst htop
      obtain ⟨hdl, hdr, hsl, hsr, hdisj⟩ := Plan.nodup_node hd
      -- a path that goes down does not come back to the top
      have hdown : ∀ side q, g.follow s (side :: q) ≠ some s := by
        intro side q hq
        have hmem := hp.mem_part_of_follow hq
        cases side with
        | left => exact hsl hmem
        | right => exact hsr hmem
      cases path with
      | nil =>
          injection hr with hr
          subst hr
          cases path' with
          | nil => rfl
          | cons side' q' => exact absurd hr' (hdown side' q')
      | cons side q =>
          cases path' with
          | nil =>
              injection hr' with hr'
              subst hr'
              exact absurd hr (hdown side q)
          | cons side' q' =>
              have hmem := hp.mem_part_of_follow hr
              have hmem' := hp.mem_part_of_follow hr'
              obtain ⟨c, hc, hq⟩ := operand?_of_follow hr
              obtain ⟨c', hc', hq'⟩ := operand?_of_follow hr'
              obtain ⟨hleft, hright⟩ := hp.operand?_node
              cases side with
              | left =>
                  cases side' with
                  | left =>
                      have hcc : c = c' := by
                        rw [hc] at hc'
                        injection hc'
                      subst hcc
                      rw [ihl hp.2.1 hdl (hleft.symm.trans hc) hq hq']
                  | right => exact absurd hmem' (hdisj r hmem)
              | right =>
                  cases side' with
                  | left => exact absurd hmem (hdisj r hmem')
                  | right =>
                      have hcc : c = c' := by
                        rw [hc] at hc'
                        injection hc'
                      subst hcc
                      rw [ihr hp.2.2 hdr (hright.symm.trans hc) hq hq']

-- ============================================================ the edge

/-- The descent from the top meets the edge. -/
theorem Stands.descent (hp : g.Stands up p) : g.Descent p.top p.edge := by
  induction p generalizing up with
  | vacant => exact .done
  | leaf s x =>
      refine .down ?_
      rw [hp.operand?_leaf]
      exact .done
  | node s op left right _ ihr =>
      refine .down ?_
      rw [hp.operand?_node.2]
      exact ihr hp.2.2

/-- In a complete plan every operator node has both operands. -/
theorem Stands.operand?_ne_none (hp : g.Stands up p) (hc : p.Complete)
    {r : Ref} (hr : r ∈ p.operators) (side : Side) :
    g.operand? r side ≠ none := by
  induction p generalizing up with
  | vacant => exact hc.elim
  | leaf s x => cases hr
  | node s op left right ihl ihr =>
      obtain ⟨hleft, hright⟩ := hp.operand?_node
      rcases Plan.mem_operators_node.1 hr with hrl | rfl | hrt
      · exact ihl hp.2.1 hc.1 hrl
      · cases side with
        | left =>
            rw [hleft]
            exact hc.1.top_ne_none
        | right =>
            rw [hright]
            exact hc.2.top_ne_none
      · exact ihr hp.2.2 hc.2 hrt

/-- In an open plan every operator node has a left operand, and only the
end of the edge has no right operand. -/
theorem Stands.operand?_open (hp : g.Stands up p) (ho : p.Open)
    (hd : p.refs.Nodup) {r : Ref} (hr : r ∈ p.operators) :
    g.operand? r .left ≠ none
      ∧ (g.operand? r .right = none ↔ p.edge.getLast? = some r) := by
  induction p generalizing up with
  | vacant => cases hr
  | leaf s x => exact ho.elim
  | node s op left right ihl ihr =>
      obtain ⟨hleft, hright⟩ := hp.operand?_node
      obtain ⟨-, hdr, hsl, hsr, hdisj⟩ := Plan.nodup_node hd
      have hlast : (Plan.node s op left right).edge.getLast?
          = some (right.edge.getLast?.getD s) := List.getLast?_cons
      rw [hlast]
      rcases Plan.mem_operators_node.1 hr with hrl | rfl | hrt
      · -- in the left part nothing is missing, and the edge does not end
        have hfull := hp.2.1.operand?_ne_none ho.1 hrl
        have hmem := Plan.operators_subset_refs left hrl
        refine ⟨hfull .left, fun h => absurd h (hfull .right), fun h => ?_⟩
        injection h with h
        cases hq : right.edge.getLast? with
        | none =>
            rw [hq, Option.getD_none] at h
            subst h
            exact absurd hmem hsl
        | some q =>
            rw [hq, Option.getD_some] at h
            subst h
            exact absurd
              (Plan.edge_subset_refs right (List.mem_of_getLast? hq))
              (hdisj _ hmem)
      · rw [hleft, hright]
        refine ⟨ho.1.top_ne_none, ?_⟩
        cases right with
        | vacant => exact ⟨fun _ => rfl, fun _ => rfl⟩
        | leaf t x => exact ho.2.elim
        | node t o l' r' =>
            refine ⟨(fun h => nomatch h), fun h => ?_⟩
            injection h with h
            obtain ⟨q, hq⟩ := Plan.edge_getLast?_isSome
              (p := .node t o l' r') (by exact Option.some_ne_none t)
            rw [hq, Option.getD_some] at h
            subst h
            exact absurd
              (Plan.edge_subset_refs _ (List.mem_of_getLast? hq)) hsr
      · obtain ⟨hl, hiff⟩ := ihr hp.2.2 ho.2 hdr hrt
        refine ⟨hl, hiff.trans ?_⟩
        have hne : right.top ≠ none := by
          intro htop
          rw [Plan.eq_vacant_of_top htop] at hrt
          cases hrt
        obtain ⟨q, hq⟩ := Plan.edge_getLast?_isSome hne
        rw [hq, Option.getD_some]

/-- The edge of a complete plan ends at a value node, and above that is
the operator that was written last, if there is one. -/
theorem Stands.edge_last_complete (hp : g.Stands up p) (hc : p.Complete)
    {q : Ref} (hq : p.edge.getLast? = some q) :
    g.holder (some q) = .value
      ∧ g.parent? q = p.operators.getLast?.or up := by
  induction p generalizing up with
  | vacant => exact hc.elim
  | leaf s x =>
      injection hq with hq
      subst hq
      exact ⟨holder_of_node? hp, parent?_of_node? hp⟩
  | node s op left right _ ihr =>
      obtain ⟨t, ht⟩ := Plan.edge_getLast?_isSome hc.2.top_ne_none
      rw [Plan.edge, List.getLast?_cons, ht, Option.getD_some] at hq
      obtain ⟨hval, hpar⟩ := ihr hp.2.2 hc.2 (ht.trans hq)
      refine ⟨hval, hpar.trans ?_⟩
      rw [Plan.operators, List.getLast?_append, List.getLast?_cons]
      cases right.operators.getLast? with
      | none => rfl
      | some o => rfl

end Graph

/-- The edge of an open plan ends at the operator that was written
last. -/
theorem Plan.Open.operators_last {p : Plan} (h : p.Open) :
    p.operators.getLast? = p.edge.getLast? := by
  induction p with
  | vacant => rfl
  | leaf s x => exact h.elim
  | node s op left right _ ihr =>
      rw [operators, edge, List.getLast?_append, List.getLast?_cons,
        List.getLast?_cons, ihr h.2]
      rfl

end Formula
