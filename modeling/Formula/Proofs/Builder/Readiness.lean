/-
When a builder's tree can be read.  After a value the tree is whole: it
validates, and everything that reads a formula comes to its reading
(`Readable`).  After an operator it has one gap, the right operand of that
operator: validation reports this gap and nothing else, and the readers,
which look for no gap, run into it wherever it lies (`Gapped`).  Readers
that go by recursion may give up before, at a part that is deeper than
calls may be nested, and a tree can grow that deep (`chain_tooDeep`).

So a builder never hands out a tree that validation rejects, and reading
a text is the same with validation as without.  Nor does the tree need its
builder: the parent links lead nowhere but into the tree, and so stay when
only the root is held.
-/
import Formula.Proofs.Builder.Chain
import Formula.Proofs.Builder.Run
import Formula.Proofs.Graph.Nesting
import Formula.Proofs.Parse
import Formula.Proofs.Plan.Release

namespace Formula

namespace Graph

/-- Everything that reads a formula comes to the reading of a tree, by
recursion if the calls that the tree needs may be nested. -/
structure Readable (g : Graph) (h : Ref) (t : Tree) : Prop where
  holds : g.Holds (some h) t
  violations : g.violations (some h) = []
  validate : g.validate (some h) = .ok []
  evaluateReporting : ∀ log, (g.evaluateReporting log (some h)).2 = .ok t.value
  evaluateQuietly : ∀ c limit, g.evaluateQuietly c limit (some h)
    = if t.calls c ≤ limit then .ok t.value else .error (.fault .tooDeep)
  text : g.text (some h) = .ok t.text
  algebraicForm : ∀ c limit, g.algebraicForm c limit (some h)
    = if t.calls c ≤ limit
      then .ok (t.fold Algebra.ofFloat Algebra.ofOperator)
      else .error (.fault .tooDeep)

/-- The right operand of a node is missing, and what reads a formula asks
nothing for its parts, by recursion if the calls on the way there may be
nested. -/
structure Gapped (g : Graph) (h last : Ref) : Prop where
  violations : g.violations (some h) = [.missing last .right]
  validate : ∃ label, g.label (some last) = .ok label
    ∧ g.validate (some h) = .ok [label ++ " is missing its right operand"]
  evaluateReporting : ∀ log, (g.evaluateReporting log (some h)).2
    = .error (.fault (.lacks .nothing "right"))
  evaluateQuietly : ∀ c, ∃ calls,
    (∀ k, g.Within k (some h) → calls ≤ k + max c.reading c.applying)
      ∧ ∀ limit, g.evaluateQuietly c limit (some h)
        = if calls ≤ limit then .error (.fault (.lacks .nothing "evaluate"))
          else .error (.fault .tooDeep)
  text : g.text (some h) = .error (.fault (.lacks .nothing "right"))

variable {g : Graph} {p : Plan} {h q : Ref}

theorem Holds.readable {t : Tree} (ht : g.Holds (some h) t) :
    g.Readable h t where
  holds := ht
  violations := ht.violations_eq_nil
  validate := ht.validate
  evaluateReporting := ht.evaluateReporting
  evaluateQuietly := ht.evaluateQuietly
  text := ht.text
  algebraicForm := ht.algebraicForm

theorem Stands.exists_label (hp : g.Stands none p) (hq : q ∈ p.refs) :
    ∃ label, g.label (some q) = .ok label := by
  unfold label
  rcases hp.node?_cases hq with ⟨x, above, hnode⟩ | ⟨o, l, t, above, hnode⟩
  · rw [Option.bind_some, content?_of_node? hnode]
    exact ⟨_, rfl⟩
  · rw [Option.bind_some, content?_of_node? hnode]
    exact ⟨_, rfl⟩

theorem Stands.gapped (hp : g.Stands none p) (hd : p.refs.Nodup)
    (ho : p.Open) (htop : p.top = some h) (hq : p.edge.getLast? = some q) :
    g.Gapped h q := by
  have hfound : g.violations (some h) = [.missing q .right] := by
    rw [hp.violations_eq hd htop, ho.gaps_eq hq]
    rfl
  -- whatever the fold is, it comes upon the vacancy
  have hfold : ∀ {α : Type} (leaf : Float → α) (join : Operator → α → α → α),
      g.fold leaf join (some h) = .error .missing := by
    intro α leaf join
    rw [fold_eq_foldDeep, ← htop, hp.foldDeep_eq (hp.length_le_size hd),
      ho.tree?_eq_none]
  constructor
  case violations => exact hfound
  case validate =>
    obtain ⟨label, hlabel⟩ :=
      hp.exists_label (Plan.edge_subset_refs p (List.mem_of_getLast? hq))
    refine ⟨label, hlabel, ?_⟩
    have hwords : g.describe (.missing q .right)
        = .ok (label ++ " is missing its right operand") := by
      simp only [describe, hlabel]
      show Except.ok (label ++ " is missing its " ++ "right" ++ " operand") = _
      rw [String.append_assoc, String.append_assoc]
      rfl
    unfold Graph.validate
    rw [hfound, List.mapM_cons, hwords]
    rfl
  case evaluateReporting =>
    intro log
    unfold Graph.evaluateReporting evaluate
    rw [hfold]
    rfl
  case evaluateQuietly =>
    intro c
    obtain ⟨calls, hle, hquiet⟩ :=
      (hp.acyclicBelow hd htop).within.exists_calls_evaluate c
    unfold evaluate at hquiet
    rw [hfold] at hquiet
    exact ⟨calls, hle, hquiet⟩
  case text =>
    unfold Graph.text render
    dsimp only
    rw [hfold]
    rfl

end Graph

-- ============================================================ every run

variable {s : Bench} {start : Nat} {p : Plan} {h : Ref}

/-- A builder that expects an operator has a tree to be read. -/
theorem Bench.Sound.readable (hs : s.Sound start p)
    (hhead : s.builder.head = some h) (he : s.builder.expected = .operator) :
    ∃ t, s.graph.Readable h t := by
  have hg := hs.grown
  obtain ⟨t, ht⟩ := (hg.isComplete he).exists_tree?
  rw [hg.head] at hhead
  exact ⟨t, Graph.Holds.readable ⟨p, hhead, ht, hg.distinct, hg.stands⟩⟩

/-- One that expects a value has a gap at the node added last. -/
theorem Bench.Sound.gapped (hs : s.Sound start p)
    (hhead : s.builder.head = some h) (he : s.builder.expected = .value) :
    ∃ last, s.builder.prev = some last ∧ s.graph.Gapped h last := by
  have hg := hs.grown
  rw [hg.head] at hhead
  obtain ⟨q, hq⟩ := Plan.edge_getLast?_isSome (p := p) (by simp [hhead])
  exact ⟨q, hg.prev.trans hq,
    hg.stands.gapped hg.distinct (hg.isOpen he) hhead hq⟩

/-- A text is never rejected by validation. -/
theorem parse_validate_ne_malformed (log : Log) (g : Graph) (text : String)
    (violations : List String) :
    (parse log g text .validate).2 ≠ .error (.malformed violations) := by
  rw [parse_validate, parse_skip]
  rcases Builder.construct_cases g (Token.tokenize text) with
    ⟨_, _, g', b', root, -, hok⟩ | ⟨e, herror, hsyntactic⟩
  · rw [hok]
    exact nofun
  · rw [herror]
    intro h
    cases h
    cases hsyntactic

/-- Whatever is called on a new builder, refused calls included: its tree
can be read as soon as an operator is expected, and has one gap, below the
node added last, as long as a value is.  Hence validation never rejects a
text, changes nothing about what is read, and finds nothing wrong with the
tree once its root is all that is still held of it. -/
theorem readable_run (g : Graph) :
    (∀ calls : List Call,
      let s := (Bench.new g).run calls
      ∀ h, s.builder.head = some h →
        (s.builder.expected = .operator → ∃ t, s.graph.Readable h t)
        ∧ (s.builder.expected = .value →
          ∃ last, s.builder.prev = some last ∧ s.graph.Gapped h last))
      ∧ ∀ log text,
        (∀ violations, (parse log g text .validate).2
          ≠ .error (.malformed violations))
        ∧ (parse log g text .validate).2 = (parse log g text .skip).2
        ∧ ∀ g' root, (parse log g text .validate).2 = .ok (g', root) →
          ∀ held, (∀ r, root = some r → r ∈ held) →
            (g'.release held).validate root = .ok [] := by
  constructor
  · intro calls s h hhead
    obtain ⟨p, hs⟩ := Bench.exists_sound g calls
    exact ⟨hs.readable hhead, hs.gapped hhead⟩
  · intro log text
    refine ⟨parse_validate_ne_malformed log g text,
      parse_validate log g text, ?_⟩
    intro g' root hparse held hroot
    obtain ⟨first, rest, -, hholds⟩ := exists_holds_of_parse hparse
    exact (hholds.release hroot).validate

/-- A sum that waits for the right operand of a product, and the same sum
when a division has been refused, the operand taken and the formula
built. -/
theorem readable_run_product :
    let before := (Bench.new Graph.empty).run
      [.add "1", .add "+", .add "2", .add "*"]
    let after := before.run [.add "/", .add "3", .build]
    before.builder.head = some 1 ∧ before.graph.Gapped 1 3
      ∧ after.builder.head = some 1 ∧ ∃ t, after.graph.Readable 1 t := by
  intro before after
  obtain ⟨hrun, -⟩ := readable_run Graph.empty
  have hbefore : before.builder.head = some 1 := by decide +kernel
  have hafter : after.builder.head = some 1 := by decide +kernel
  obtain ⟨last, hlast, hgapped⟩ := (hrun _ 1 hbefore).2 (by decide +kernel)
  have hprev : before.builder.prev = some 3 := by decide +kernel
  obtain rfl : 3 = last := Option.some.inj (hprev.symm.trans hlast)
  refine ⟨hbefore, hgapped, hafter, ?_⟩
  -- both stretches of calls as one run of the new builder
  exact (hrun [.add "1", .add "+", .add "2", .add "*", .add "/", .add "3",
    .build] 1 hafter).1 (by decide +kernel)

/-- A builder that has taken a chain of two thousand differences expects an
operator, and what may nest a thousand calls does not read its tree by
recursion. -/
theorem chain_tooDeep :
    ∃ h, (Bench.chain 2000).builder.head = some h
      ∧ (Bench.chain 2000).builder.expected = .operator
      ∧ ∀ c, (Bench.chain 2000).graph.evaluateQuietly c 1000 (some h)
            = .error (.fault .tooDeep)
          ∧ (Bench.chain 2000).graph.algebraicForm c 1000 (some h)
            = .error (.fault .tooDeep) := by
  obtain ⟨h, t, hhead, he, -, hholds, hdeep⟩ :=
    Bench.exists_chain 1000 2000 (by decide)
  refine ⟨h, hhead, he, fun c => ?_⟩
  rw [hholds.evaluateQuietly, hholds.algebraicForm, if_neg (hdeep c),
    if_neg (hdeep c)]
  exact ⟨rfl, rfl⟩

end Formula
