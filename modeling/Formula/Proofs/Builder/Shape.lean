/-
The shape of a builder's tree, said of the graph's own links.

The invariant that the calls preserve speaks of plans.  Here it is read
back as what one can check on the graph: from the head every node that
was added is reached by one path, links down and links up agree, the one
operand that may be missing is the one that is expected next, and what
the builder remembers are the nodes that it takes them for.
-/
import Formula.Proofs.Builder.Run
import Formula.Proofs.Plan.Path

namespace Formula.Builder

/-- What a builder with a tree is like: `h` is its head, and `count` nodes
were added since the graph had `start`. -/
structure Rooted (start count : Nat) (g : Graph) (b : Builder) (h : Ref) :
    Prop where
  /-- The head has no parent. -/
  root : g.parent? h = none
  /-- The head reaches every node that was added, and nothing else. -/
  reaches : ∀ r, g.Reaches h r ↔ start ≤ r ∧ r < start + count
  /-- One path leads to each. -/
  path : ∀ r path path', g.follow h path = some r →
    g.follow h path' = some r → path = path'
  /-- Each is a value node, or an operator node with an operator. -/
  kind : ∀ r, g.Reaches h r →
    g.holder (some r) = .value
      ∨ (g.holder (some r) = .operator ∧ g.operator? r ≠ none)
  /-- An operand has the node that links to it as its parent. -/
  back : ∀ r side c, g.Reaches h r → g.operand? r side = some c →
    g.parent? c = some r
  /-- Every operator node has a left operand. -/
  left : ∀ r, g.Reaches h r → g.holder (some r) = .operator →
    g.operand? r .left ≠ none
  /-- While a value is expected, one right operand is missing: that of the
  node added last, which is the last of the history. -/
  pending : b.expected = .value → ∃ last, b.prev = some last
    ∧ b.history.getLast? = some last
    ∧ ∀ r, g.Reaches h r → g.holder (some r) = .operator →
      (g.operand? r .right = none ↔ r = last)
  /-- While an operator is expected, none is. -/
  complete : b.expected = .operator → ∀ r, g.Reaches h r →
    g.holder (some r) = .operator → g.operand? r .right ≠ none
  /-- The node added last ends the right spine. -/
  spine : ∃ spine, g.Descent (some h) spine ∧ b.prev = spine.getLast?
  /-- While an operator is expected it is a value node: the head, or below
  the last of the history. -/
  last : b.expected = .operator → ∃ last, b.prev = some last
    ∧ g.holder (some last) = .value
    ∧ (b.history = [] → last = h)
    ∧ (b.history ≠ [] → g.parent? last = b.history.getLast?)
  /-- The history lists every operator node once. -/
  history : b.history.Nodup
    ∧ ∀ r, r ∈ b.history ↔ g.Reaches h r ∧ g.holder (some r) = .operator

/-- What a builder is like that has taken `count` tokens since the graph
had `start` nodes. -/
structure WellShaped (start count : Nat) (g : Graph) (b : Builder) : Prop where
  /-- A value is expected after an even number of tokens. -/
  expected : b.expected = .value ↔ count % 2 = 0
  /-- There is no head before the first token. -/
  head : b.head = none ↔ count = 0
  /-- And then nothing else is remembered. -/
  empty : b.head = none → b.prev = none ∧ b.history = []
  /-- From then on there is a tree. -/
  rooted : ∀ h, b.head = some h → Rooted start count g b h

variable {start : Nat} {s : Bench} {p : Plan} {h : Ref}

-- ==================================================== off the plan's links

/-- The operator nodes that the head reaches are the history. -/
theorem mem_history_iff (hs : s.Sound start p) (htop : p.top = some h)
    {r : Ref} :
    r ∈ s.builder.history
      ↔ s.graph.Reaches h r ∧ s.graph.holder (some r) = .operator := by
  rw [hs.grown.history, hs.grown.stands.reaches_iff htop]
  exact hs.grown.stands.mem_operators_iff

/-- Without operators the edge ends at the top. -/
theorem edge_of_no_operators {q : Ref} (hempty : p.operators = [])
    (htop : p.top = some h) (hq : p.edge.getLast? = some q) : q = h := by
  cases p with
  | vacant => cases htop
  | leaf r x =>
      injection htop with htop
      injection hq with hq
      exact hq.symm.trans htop
  | node r op left right =>
      exact absurd hempty (List.append_ne_nil_of_right_ne_nil _
        (List.cons_ne_nil _ _))

/-- A sound bench with a tree is rooted at its head. -/
theorem rooted_of_sound (hs : s.Sound start p) (htop : p.top = some h) :
    Rooted start s.taken.length s.graph s.builder h := by
  have hg := hs.grown
  have hstands := hg.stands
  have hreach : ∀ {r}, s.graph.Reaches h r ↔ r ∈ p.refs :=
    hstands.reaches_iff htop
  have hmem : ∀ r, s.graph.Reaches h r → s.graph.holder (some r) = .operator →
      r ∈ p.operators := fun r hr hop =>
    hstands.mem_operators_iff.2 ⟨hreach.1 hr, hop⟩
  have hsome : p.top ≠ none := by
    rw [htop]
    exact Option.some_ne_none h
  obtain ⟨q, hq⟩ := Plan.edge_getLast?_isSome hsome
  constructor
  case root => exact hstands.parent?_top htop
  case reaches =>
    intro r
    rw [hreach, hs.refs, List.mem_range'_1]
  case path =>
    intro r path path' hr hr'
    exact hstands.path_unique hg.distinct htop hr hr'
  case kind =>
    intro r hr
    rcases hstands.node?_cases (hreach.1 hr) with
      ⟨x, above, hnode⟩ | ⟨op, left, right, above, hnode⟩
    · exact Or.inl (Graph.holder_of_node? hnode)
    · refine Or.inr ⟨Graph.holder_of_node? hnode, ?_⟩
      rw [Graph.operator?_of_node? hnode]
      exact Option.some_ne_none op
  case back =>
    intro r side c hr hc
    exact (hstands.operand?_mem (hreach.1 hr) hc).2
  case left =>
    intro r hr hop
    cases he : s.builder.expected with
    | value =>
        have ho := hg.isOpen he
        exact (hstands.operand?_open ho hg.distinct (hmem r hr hop)).1
    | operator =>
        have hc := hg.isComplete he
        exact hstands.operand?_ne_none hc (hmem r hr hop) .left
  case pending =>
    intro he
    have ho := hg.isOpen he
    refine ⟨q, hg.prev.trans hq, ?_, ?_⟩
    · rw [hg.history, ho.operators_last, hq]
    · intro r hr hop
      rw [(hstands.operand?_open ho hg.distinct (hmem r hr hop)).2, hq]
      exact ⟨fun heq => (Option.some.inj heq).symm, fun heq => by rw [heq]⟩
  case complete =>
    intro he r hr hop
    exact hstands.operand?_ne_none (hg.isComplete he) (hmem r hr hop) .right
  case spine =>
    refine ⟨p.edge, ?_, hg.prev⟩
    rw [← htop]
    exact hstands.descent
  case last =>
    intro he
    obtain ⟨hval, hpar⟩ := hstands.edge_last_complete (hg.isComplete he) hq
    refine ⟨q, hg.prev.trans hq, hval, ?_, ?_⟩
    · intro hempty
      exact edge_of_no_operators (hg.history.symm.trans hempty) htop hq
    · intro _
      rw [hpar, ← hg.history, Option.or_none]
  case history =>
    refine ⟨?_, fun r => mem_history_iff hs htop⟩
    rw [hg.history]
    exact Plan.operators_nodup hg.distinct

-- ============================================================ every run

/-- Whatever is called on a new builder, refused calls included, it is
well shaped. -/
theorem wellShaped_run (g : Graph) (calls : List Call) :
    let s := (Bench.new g).run calls
    WellShaped g.size s.taken.length s.graph s.builder := by
  intro s
  obtain ⟨p, hs⟩ := Bench.exists_sound g calls
  have hg := hs.grown
  have hlen : p.refs.length = s.taken.length := by
    rw [hs.refs, List.length_range']
  constructor
  case expected => exact hs.expected
  case head =>
    constructor
    · intro hnone
      rw [hg.head] at hnone
      rw [← hlen, Plan.eq_vacant_of_top hnone]
      rfl
    · intro hzero
      rw [hzero] at hlen
      rw [hg.head]
      cases htop : p.top with
      | none => rfl
      | some r =>
          have hmem := Plan.mem_refs_of_top htop
          rw [List.length_eq_zero_iff.1 hlen] at hmem
          cases hmem
  case empty =>
    intro hnone
    rw [hg.head] at hnone
    rw [hg.prev, hg.history, Plan.eq_vacant_of_top hnone]
    exact ⟨rfl, rfl⟩
  case rooted =>
    intro h hsome
    rw [hg.head] at hsome
    exact rooted_of_sound hs hsome

end Formula.Builder
