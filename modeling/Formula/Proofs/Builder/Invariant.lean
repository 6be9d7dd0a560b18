/-
The builder's invariant, and what each of its calls can do.

# The invariant

`Grown g b p`: the graph stands by the plan `p`, and what the builder
remembers are readings of it: its head is the plan's top, its last node
the end of the plan's edge, its history the plan's operators from left to
right.  The spine rises, and what is expected next tells whether the plan
is open or complete.  A builder that has taken nothing has grown a vacant
plan.

# One call

`Grown.add_cases` and `Grown.build_cases` list everything that a call can
come to, guards included.  None of the cases is a fault: each look-up
that could fail is of a node that the plan says is there.  A token that
is taken makes the plan grow by one place (`Advances`), the value at its
vacancy or the operator at its pivot, and re-links nothing off the edge.
-/
import Formula.Proofs.Plan.Growth
import Formula.Proofs.Plan.Spine

namespace Formula

/-- What is expected after that. -/
def Expected.next : Expected → Expected
  | .value => .operator
  | .operator => .value

namespace Plan

/-- The plan has the shape in which the next token is expected. -/
def Fits (p : Plan) : Expected → Prop
  | .value => p.Open
  | .operator => p.Complete

/-- What is noted of an operator that is spliced in: nothing where there
was a single value. -/
def note (op : Operator) : Plan → Option Splice
  | .node r o left right =>
      match (Plan.node r o left right).spine.find? (op.rank ≤ ·.2.rank) with
      | some (_, displaced) => some (.displaces op displaced)
      | none => some (.extends op)
  | _ => none

/-- A complete plan with an operator on top does not end there. -/
theorem top_ne_edge_last {r : Ref} {o : Operator} {left right : Plan}
    (hd : (Plan.node r o left right).refs.Nodup) (hc : right.Complete) :
    some r ≠ (Plan.node r o left right).edge.getLast? := by
  obtain ⟨-, -, -, hr, -⟩ := nodup_node hd
  obtain ⟨q, hq⟩ := edge_getLast?_isSome hc.top_ne_none
  rw [edge, List.getLast?_cons, hq, Option.getD_some]
  intro h
  injection h with h
  subst h
  exact hr (edge_subset_refs right (List.mem_of_getLast? hq))

/-- The end of an open edge is the last operator of the spine. -/
theorem Open.edge_last {p : Plan} (h : p.Open) :
    p.edge.getLast? = p.spine.getLast?.map (·.1) := by
  induction p with
  | vacant => rfl
  | leaf r x => exact h.elim
  | node r o left right _ ihr =>
      rw [edge, spine, List.getLast?_cons, List.getLast?_cons, ihr h.2]
      cases right.spine.getLast? with
      | none => rfl
      | some a => rfl

end Plan

namespace Builder

/-- What is true of a builder between calls. -/
structure Grown (g : Graph) (b : Builder) (p : Plan) : Prop where
  stands : g.Stands none p
  distinct : p.refs.Nodup
  head : b.head = p.top
  prev : b.prev = p.edge.getLast?
  history : b.history = p.operators
  rising : p.Rising
  fits : p.Fits b.expected

/-- What taking a token does: the plan grows by the new place, and
nothing off its edge is touched. -/
structure Advances (g : Graph) (b : Builder) (p : Plan) (g' : Graph)
    (b' : Builder) (p' : Plan) : Prop where
  grown : Grown g' b' p'
  finalized : b'.finalized = b.finalized
  expected : b'.expected = b.expected.next
  position : b'.position = b.position + 1
  refs : p'.refs = p.refs ++ [g.size]
  size : g'.size = g.size + 1
  kept : ∀ r < g.size, r ∉ p.edge → g'.node? r = g.node? r

/-- A new builder has grown nothing, in whatever graph. -/
theorem grown_new (g : Graph) : Grown g {} .vacant :=
  ⟨trivial, List.nodup_nil, rfl, rfl, rfl, List.Pairwise.nil, trivial⟩

variable {g : Graph} {b : Builder} {p : Plan}

theorem Grown.isOpen (h : Grown g b p) (he : b.expected = .value) :
    p.Open := by
  have hfits := h.fits
  rw [he] at hfits
  exact hfits

theorem Grown.isComplete (h : Grown g b p) (he : b.expected = .operator) :
    p.Complete := by
  have hfits := h.fits
  rw [he] at hfits
  exact hfits

/-- A place that the graph does not have yet is none of the plan's. -/
theorem Grown.size_notMem (h : Grown g b p) : g.size ∉ p.refs := fun hmem =>
  Nat.lt_irrefl _ (h.stands.lt_size hmem)

theorem Grown.nodup_snoc (h : Grown g b p) : (p.refs ++ [g.size]).Nodup := by
  refine List.nodup_append.2 ⟨h.distinct, List.pairwise_singleton _ _, ?_⟩
  intro r hr s hs
  rw [List.mem_singleton.1 hs]
  exact ne_of_mem_of_not_mem hr h.size_notMem

/-- Adding a node leaves the plan as it stands. -/
theorem Grown.stands_add (h : Grown g b p) (c : Content) :
    (g.add c).1.Stands none p := by
  refine h.stands.congr fun r hr => ?_
  exact Graph.node?_add_of_ne c (ne_of_mem_of_not_mem hr h.size_notMem)

-- ============================================================== values

/-- Taking a number fills the vacancy. -/
theorem Grown.addValue (h : Grown g b p) (he : b.expected = .value)
    (x : Float) :
    ∃ g', b.addValue g x = .ok (g', { b with
        head := (p.fill g.size x).top, prev := some g.size })
      ∧ g'.Stands none (p.fill g.size x) ∧ g'.size = g.size + 1
      ∧ ∀ r < g.size, r ∉ p.edge → g'.node? r = g.node? r := by
  have ho := h.isOpen he
  have hnew := g.node?_add_size (.value x)
  have hsize := g.size_add (.value x)
  have hkept : ∀ r < g.size, (g.add (.value x)).1.node? r = g.node? r :=
    fun r hr => Graph.node?_add_of_ne _ (Nat.ne_of_lt hr)
  unfold Builder.addValue
  cases htop : p.top with
  | none =>
      rw [h.head, htop, Plan.eq_vacant_of_top htop]
      exact ⟨_, rfl, hnew, hsize, fun r hr _ => hkept r hr⟩
  | some s =>
      have hsome : p.top ≠ none := by
        rw [htop]
        exact Option.some_ne_none s
      obtain ⟨q, hq⟩ := Plan.edge_getLast?_isSome hsome
      have hstands := h.stands_add (.value x)
      obtain ⟨o, left, above, hnode⟩ := hstands.node?_edge_last ho hq
      have hadopt := Graph.adopt_of_node? hnode .right g.size
      refine ⟨(g.add (.value x)).1.attach q .right g.size, ?_, ?_, ?_, ?_⟩
      · rw [h.head, h.prev, htop, hq, Plan.top_fill x hsome, htop]
        show (do
          let g' ← (g.add (.value x)).1.adopt (some q) .right g.size
          return (g', { b with head := some s, prev := some g.size })) = _
        rw [hadopt]
        rfl
      · exact hstands.fill ho h.distinct h.size_notMem hnew hq
      · rw [Graph.size_attach, hsize]
      · intro r hr hedge
        have hrq : r ≠ q :=
          (ne_of_mem_of_not_mem (List.mem_of_getLast? hq) hedge).symm
        exact (Graph.node?_attach_of_ne hrq (Nat.ne_of_lt hr)).trans
          (hkept r hr)

-- =========================================================== operators

/-- Putting a node in the place of another re-links as `spliceAt` does,
and moves the head if the other had no parent. -/
theorem displace_eq {n old : Ref}
    (hu : ∀ u, g.parent? old = some u → ∃ o left right above,
      g.node? u = some ⟨.operator o left right, above⟩) :
    b.displace g n old = .ok (g.spliceAt n (g.parent? old) old,
      { b with head := if g.parent? old = none then some n else b.head }) := by
  unfold displace
  cases hold : g.parent? old with
  | none => rfl
  | some u =>
      obtain ⟨o, left, right, above, hnode⟩ := hu u hold
      show (do
        let g' ← g.adopt (some u) .right n
        return (g'.attach n .left old, b)) = _
      rw [Graph.adopt_of_node? hnode]
      rfl

/-- The builder with an operator node as its latest. -/
def placed (b : Builder) (n : Ref) : Builder :=
  { b with prev := some n, history := b.history ++ [n] }

/-- The first operator has the only value as left operand. -/
theorem addOperator_first {op : Operator} {last : Ref}
    (hprev : b.prev = some last) (hhead : b.head = some last) :
    b.addOperator g op = .ok
      ((g.add (.operator (some op) none none)).1.attach g.size .left last,
        { b.placed g.size with head := some g.size }, none) := by
  unfold addOperator
  rw [hprev, hhead]
  show (if some last = some last then _ else _) = _
  rw [if_pos rfl]
  rfl

/-- A later operator displaces what the search finds. -/
theorem addOperator_displaces {op : Operator} {last old : Ref}
    {g' : Graph} {b' : Builder} (hprev : b.prev = some last)
    (hhead : b.head ≠ some last)
    (hfound : displaced? (g.add (.operator (some op) none none)).1 op b.history
      = .ok (some old))
    (hdisplace : (b.placed g.size).displace
      (g.add (.operator (some op) none none)).1 g.size old = .ok (g', b')) :
    b.addOperator g op
      = .ok (g', b', (g'.operator? old).map (.displaces op)) := by
  unfold addOperator
  rw [hprev]
  show (if b.head = some last then _ else _) = _
  rw [if_neg hhead]
  show (displaced? (g.add (.operator (some op) none none)).1 op b.history
    >>= _) = _
  rw [hfound]
  show ((b.placed g.size).displace
    (g.add (.operator (some op) none none)).1 g.size old >>= _) = _
  rw [hdisplace]
  rfl

/-- If it finds nothing, the operator takes the place of the last
value. -/
theorem addOperator_extends {op : Operator} {last u : Ref}
    {o : Option Operator} {left right above : Option Ref}
    (hprev : b.prev = some last) (hhead : b.head ≠ some last)
    (hfound : displaced? (g.add (.operator (some op) none none)).1 op b.history
      = .ok none)
    (hparent : (g.add (.operator (some op) none none)).1.parent? last = some u)
    (hu : (g.add (.operator (some op) none none)).1.node? u
      = some ⟨.operator o left right, above⟩) :
    b.addOperator g op = .ok
      ((g.add (.operator (some op) none none)).1.spliceAt g.size (some u) last,
        b.placed g.size, some (.extends op)) := by
  unfold addOperator
  rw [hprev]
  show (if b.head = some last then _ else _) = _
  rw [if_neg hhead]
  show (displaced? (g.add (.operator (some op) none none)).1 op b.history
    >>= _) = _
  rw [hfound]
  show ((g.add (.operator (some op) none none)).1.adopt
    ((g.add (.operator (some op) none none)).1.parent? last) .right g.size
    >>= _) = _
  rw [hparent, Graph.adopt_of_node? hu]
  rfl

/-- All three ways to take an operator re-link the graph as `spliceAt`
does at the pivot. -/
theorem Grown.addOperator_eq (h : Grown g b p) (hc : p.Complete)
    {op : Operator} {q : Ref} (hq : (p.pivot op).top = some q) :
    b.addOperator g op = .ok
      ((g.add (.operator (some op) none none)).1.spliceAt g.size
        (p.abovePivot op none) q,
      { b.placed g.size with head := (p.splice g.size op).top },
      p.note op) := by
  have hstands := h.stands_add (.operator (some op) none none)
  have hparent := hstands.parent?_pivot hq
  have habove : ∀ u, p.abovePivot op none = some u →
      ∃ o left right above,
        (g.add (.operator (some op) none none)).1.node? u
          = some ⟨.operator o left right, above⟩ := fun u hu =>
    (hstands.node?_abovePivot hu).resolve_left (fun hnone => nomatch hnone)
  cases p with
  | vacant => exact hc.elim
  | leaf r x =>
      injection hq with hq
      subst hq
      exact addOperator_first h.prev h.head
  | node r o left right =>
      obtain ⟨last, hlast⟩ := Plan.edge_getLast?_isSome hc.top_ne_none
      have hhead : b.head ≠ some last := by
        rw [h.head, ← hlast]
        exact Plan.top_ne_edge_last h.distinct hc.2
      have hfound := hstands.displaced? h.distinct op
      rw [← h.history] at hfound
      have hpivot := Plan.pivot_top op hc
      rw [hq] at hpivot
      have hcases := Plan.pivot_cases g.size op none (.node r o left right)
      rw [Plan.note]
      cases hfind : (Plan.node r o left right).spine.find?
          (op.rank ≤ ·.2.rank) with
      | some a =>
          obtain ⟨old, o'⟩ := a
          rw [hfind, Option.map_some, Option.some_or] at hpivot
          rw [hfind, Option.map_some] at hfound
          injection hpivot with hold
          subst hold
          have hself : (Plan.node r o left right).abovePivot op none ≠ some q :=
            Plan.abovePivot_ne h.distinct hq fun u hu => nomatch hu
          have hmem := Plan.edge_subset_refs _ (Plan.mem_edge_of_pivot hq)
          have hne : q ≠ g.size := ne_of_mem_of_not_mem hmem h.size_notMem
          have hop := hstands.operator?_spine (List.mem_of_find?_eq_some hfind)
          have hdisplace := displace_eq (b := b.placed g.size) (n := g.size)
            fun u hu => habove u (hparent.symm.trans hu)
          rw [hparent] at hdisplace
          rw [addOperator_displaces (h.prev.trans hlast) hhead hfound hdisplace,
            Graph.operator?_spliceAt_pivot hne hself hop]
          rcases hcases with ⟨-, hnone, hsplice⟩ | ⟨u, -, hsome, htop⟩
          · rw [hnone, hsplice]
            rfl
          · rw [hsome, htop, ← h.head]
            rfl
      | none =>
          rw [hfind, Option.map_none, Option.none_or, hlast] at hpivot
          rw [hfind, Option.map_none] at hfound
          injection hpivot with hend
          subst hend
          rcases hcases with ⟨hwhole, -, -⟩ | ⟨u, -, hsome, htop⟩
          · -- the pivot is the end of the edge, and so not the whole plan
            rw [hwhole, ← h.head] at hq
            exact absurd hq hhead
          · obtain ⟨o', left', right', above, hu⟩ := habove u hsome
            rw [addOperator_extends (h.prev.trans hlast) hhead hfound
              (hparent.trans hsome) hu, hsome, htop, ← h.head]
            rfl

/-- Taking an operator splices it in. -/
theorem Grown.addOperator (h : Grown g b p) (he : b.expected = .operator)
    (op : Operator) :
    ∃ g', b.addOperator g op = .ok (g',
        { b.placed g.size with head := (p.splice g.size op).top }, p.note op)
      ∧ g'.Stands none (p.splice g.size op) ∧ g'.size = g.size + 1
      ∧ ∀ r < g.size, r ∉ p.edge → g'.node? r = g.node? r := by
  have hc := h.isComplete he
  obtain ⟨q, hq⟩ : ∃ q, (p.pivot op).top = some q := by
    obtain ⟨last, hlast⟩ := Plan.edge_getLast?_isSome hc.top_ne_none
    rw [Plan.pivot_top op hc, hlast]
    cases p.spine.find? (op.rank ≤ ·.2.rank) with
    | none => exact ⟨last, rfl⟩
    | some a => exact ⟨a.1, rfl⟩
  have hnew := g.node?_add_size (.operator (some op) none none)
  have hsize := g.size_add (.operator (some op) none none)
  have hkept : ∀ r < g.size,
      (g.add (.operator (some op) none none)).1.node? r = g.node? r :=
    fun r hr => Graph.node?_add_of_ne _ (Nat.ne_of_lt hr)
  have hstands := h.stands_add (.operator (some op) none none)
  have hn := h.size_notMem
  have hedge := Plan.mem_edge_of_pivot hq
  -- all three ways to take an operator re-link the graph like this
  refine ⟨(g.add (.operator (some op) none none)).1.spliceAt g.size
    (p.abovePivot op none) q, ?_, ?_, ?_, ?_⟩
  · exact h.addOperator_eq hc hq
  · exact hstands.splice h.distinct hn hnew (fun u hu => nomatch hu) hq
  · rw [Graph.size_spliceAt, hsize]
  · intro r hr hoff
    have hrq : r ≠ q := (ne_of_mem_of_not_mem hedge hoff).symm
    refine Eq.trans (Graph.node?_spliceAt_of_ne (Nat.ne_of_lt hr) hrq ?_)
      (hkept r hr)
    intro habove
    rcases Plan.pivot_cases g.size op none p with
      ⟨-, hnone, -⟩ | ⟨u, hu, hsome, -⟩
    · rw [hnone] at habove
      cases habove
    · rw [hsome] at habove
      injection habove with habove
      subst habove
      exact hoff hu

-- =============================================================== calls

/-- Everything that handing over a token can come to. -/
inductive AddCases (g : Graph) (b : Builder) (p : Plan) (token : String) : Prop
  | closed (hf : b.finalized = true)
      (hadd : b.add g token = .error .addAfterBuild)
  | notNumber (hf : b.finalized = false) (he : b.expected = .value)
      (hread : Literal.read? token = none)
      (hadd : b.add g token = .error (.notNumber token b.position))
  | notOperator (hf : b.finalized = false) (he : b.expected = .operator)
      (hread : Operator.ofSymbol? token = none)
      (hadd : b.add g token = .error (.notOperator token b.position))
  | value (x : Float) (g' : Graph) (b' : Builder) (hf : b.finalized = false)
      (he : b.expected = .value) (hread : Literal.read? token = some x)
      (hadd : b.add g token = .ok (g', b', none))
      (hadv : Advances g b p g' b' (p.fill g.size x))
  | operator (op : Operator) (g' : Graph) (b' : Builder)
      (hf : b.finalized = false) (he : b.expected = .operator)
      (hread : Operator.ofSymbol? token = some op)
      (hadd : b.add g token = .ok (g', b', p.note op))
      (hadv : Advances g b p g' b' (p.splice g.size op))

/-- Everything that asking for the formula can come to. -/
inductive BuildCases (g : Graph) (b : Builder) (p : Plan) : Prop
  | closed (hf : b.finalized = true)
      (hbuild : b.build g = .error .buildAfterBuild)
  | empty (hf : b.finalized = false) (he : b.expected = .value)
      (hp : p = .vacant) (hbuild : b.build g = .error (.empty b.position))
  | trailing (q : Ref) (op : Operator) (hf : b.finalized = false)
      (he : b.expected = .value) (hlast : p.spine.getLast? = some (q, op))
      (hbuild : b.build g = .error (.trailing op.symbol (b.position - 1)))
  | built (hf : b.finalized = false) (he : b.expected = .operator)
      (hbuild : b.build g = .ok ({ b with finalized := true }, p.top))

/-- A builder that takes a number has grown by it. -/
theorem Grown.add_value (h : Grown g b p) (hf : b.finalized = false)
    (he : b.expected = .value) {token : String} {x : Float}
    (hread : Literal.read? token = some x) :
    ∃ g' b', b.add g token = .ok (g', b', none)
      ∧ Advances g b p g' b' (p.fill g.size x) := by
  obtain ⟨g', hadd, hstands, hsize, hkept⟩ := h.addValue he x
  have ho := h.isOpen he
  refine ⟨g', { b with
    head := (p.fill g.size x).top, prev := some g.size,
    expected := .operator, position := b.position + 1 }, ?_, ?_⟩
  · unfold add
    rw [hf, he, hread]
    show ((b.addValue g x).mapError Error.fault >>= _) = _
    rw [hadd, hf]
    rfl
  · refine ⟨⟨hstands, ?_, rfl, ?_, ?_, h.rising.fill x, ho.fill x⟩, rfl, ?_,
      rfl, Plan.refs_fill x ho, hsize, hkept⟩
    · rw [Plan.refs_fill x ho]
      exact h.nodup_snoc
    · rw [Plan.edge_fill x ho, List.getLast?_concat]
    · rw [Plan.operators_fill]
      exact h.history
    · rw [he]
      rfl

/-- A builder that takes an operator has grown by it. -/
theorem Grown.add_operator (h : Grown g b p) (hf : b.finalized = false)
    (he : b.expected = .operator) {token : String} {op : Operator}
    (hread : Operator.ofSymbol? token = some op) :
    ∃ g' b', b.add g token = .ok (g', b', p.note op)
      ∧ Advances g b p g' b' (p.splice g.size op) := by
  obtain ⟨g', hadd, hstands, hsize, hkept⟩ := h.addOperator he op
  have hc := h.isComplete he
  refine ⟨g', { b.placed g.size with
    head := (p.splice g.size op).top,
    expected := .value, position := b.position + 1 }, ?_, ?_⟩
  · unfold add
    rw [hf, he, hread]
    show ((b.addOperator g op).mapError Error.fault >>= _) = _
    rw [hadd]
    rfl
  · refine ⟨⟨hstands, ?_, rfl, ?_, ?_, h.rising.splice, hc.splice⟩, rfl, ?_,
      rfl, Plan.refs_splice p, hsize, hkept⟩
    · rw [Plan.refs_splice]
      exact h.nodup_snoc
    · rw [Plan.edge_splice, List.getLast?_concat]
      rfl
    · rw [Plan.operators_splice, ← h.history]
      rfl
    · rw [he]
      rfl

theorem Grown.add_cases (h : Grown g b p) (token : String) :
    AddCases g b p token := by
  cases hf : b.finalized with
  | true =>
      refine .closed hf ?_
      unfold add
      rw [hf]
      rfl
  | false =>
      cases he : b.expected with
      | value =>
          cases hread : Literal.read? token with
          | none =>
              refine .notNumber hf he hread ?_
              unfold add
              rw [hf, he, hread]
              rfl
          | some x =>
              obtain ⟨g', b', hadd, hadv⟩ := h.add_value hf he hread
              exact .value x g' b' hf he hread hadd hadv
      | operator =>
          cases hread : Operator.ofSymbol? token with
          | none =>
              refine .notOperator hf he hread ?_
              unfold add
              rw [hf, he, hread]
              rfl
          | some op =>
              obtain ⟨g', b', hadd, hadv⟩ := h.add_operator hf he hread
              exact .operator op g' b' hf he hread hadd hadv

theorem Grown.build_cases (h : Grown g b p) : BuildCases g b p := by
  cases hf : b.finalized with
  | true =>
      refine .closed hf ?_
      unfold build
      rw [hf]
      rfl
  | false =>
      cases he : b.expected with
      | operator =>
          refine .built hf he ?_
          unfold build
          rw [hf, he, ← h.head]
          rfl
      | value =>
          have ho := h.isOpen he
          cases p with
          | vacant =>
              refine .empty hf he rfl ?_
              unfold build
              rw [hf, he, h.head]
              rfl
          | leaf r x => exact ho.elim
          | node r o left right =>
              -- what the builder added last is the end of the spine
              obtain ⟨⟨q, op⟩, hlast⟩ : ∃ a,
                  (Plan.node r o left right).spine.getLast? = some a :=
                ⟨_, List.getLast?_cons⟩
              have hprev := h.prev
              rw [ho.edge_last, hlast] at hprev
              have hop : b.prev.bind g.operator? = some op := by
                rw [hprev]
                exact h.stands.operator?_spine (List.mem_of_getLast? hlast)
              refine .trailing q op hf he hlast ?_
              unfold build
              rw [hf, he, h.head, hop]
              rfl

/-- Handing out the formula leaves what has grown. -/
theorem Grown.finalize (h : Grown g b p) :
    Grown g { b with finalized := true } p :=
  ⟨h.stands, h.distinct, h.head, h.prev, h.history, h.rising, h.fits⟩

end Builder

end Formula
