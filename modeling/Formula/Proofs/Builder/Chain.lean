/-
Long chains.  Every + and - comes above all that was there before it, so a
formula of nothing else grows one level per operator
(`Tree.height_ofNumerals`).  A builder takes it at any length, but what
reads it by recursion nests a call for every level and gives up in the
end (`Tree.not_calls_le`).

The graph of a builder that works alone has nothing in it but the
builder's tree.  So what is known below the head is known of the whole
graph: it has no cycles, and only value nodes and operator nodes with
their operators.
-/
import Formula.Proofs.Builder.Run
import Formula.Proofs.Graph.Acyclic
import Formula.Proofs.Parse
import Formula.Proofs.Plan.Reading

namespace Formula

-- ============================================================ on trees

namespace Tree

variable {rest : List (Operator × Float)} {t : Tree}

theorem one_le_height (t : Tree) : 1 ≤ t.height := by
  cases t with
  | leaf x => exact Nat.le_refl 1
  | node op left right => exact Nat.le_add_left 1 _

theorem height_foldl_extend (h : ∀ pair ∈ rest, pair.1.isAdditive = true) :
    (rest.foldl (fun t (op, x) => t.extend op x) t).height
      = t.height + rest.length := by
  induction rest generalizing t with
  | nil => rfl
  | cons pair rest ih =>
      obtain ⟨hop, hrest⟩ := List.forall_mem_cons.1 h
      have hle := t.one_le_height
      show (rest.foldl _ (t.extend pair.1 pair.2)).height = _
      rw [extend_additive hop, ih hrest, height, height, List.length_cons]
      omega

theorem height_ofNumerals (first : Numeral) {rest : List (Operator × Numeral)}
    (h : ∀ pair ∈ rest, pair.1.isAdditive = true) :
    (ofNumerals first rest).height = rest.length + 1 := by
  rw [ofNumerals, ← foldl_extend_leaf, height_foldl_extend, height,
    List.length_map, Nat.add_comm]
  intro pair hpair
  obtain ⟨pair', hpair', rfl⟩ := List.mem_map.1 hpair
  exact h pair' hpair'

/-- A tree that is higher than calls may be nested needs too many. -/
theorem not_calls_le {limit : Nat} (h : limit + 1 < t.height) (c : Overhead) :
    ¬ t.calls c ≤ limit := by
  have hle := t.height_le_calls c
  omega

end Tree

namespace Bench

variable {s : Bench} {p : Plan} {r : Ref}

-- ======================================================== only its nodes

theorem Sound.mem_refs (hs : s.Sound 0 p) (hr : r < s.graph.size) :
    r ∈ p.refs := by
  rw [hs.size] at hr
  rw [hs.refs, List.mem_range'_1]
  exact ⟨Nat.zero_le r, hr⟩

theorem Sound.content?_cases (hs : s.Sound 0 p) (hr : r < s.graph.size) :
    (∃ x, s.graph.content? r = some (.value x))
      ∨ ∃ op left right,
        s.graph.content? r = some (.operator (some op) left right) := by
  rcases hs.grown.stands.node?_cases (hs.mem_refs hr) with
    ⟨x, above, hnode⟩ | ⟨op, left, right, above, hnode⟩
  · exact .inl ⟨x, Graph.content?_of_node? hnode⟩
  · exact .inr ⟨op, _, _, Graph.content?_of_node? hnode⟩

theorem Sound.equipped (hs : s.Sound 0 p) : s.graph.Equipped := by
  intro r left right hr
  rcases hs.content?_cases (Graph.lt_size_of_content? hr) with
    ⟨x, hvalue⟩ | ⟨op, left', right', hoperator⟩
  · cases hr.symm.trans hvalue
  · cases hr.symm.trans hoperator

theorem Sound.content?_ne_foreign {kind : Identifier} (hs : s.Sound 0 p) :
    s.graph.content? r ≠ some (.foreign kind) := by
  intro hr
  rcases hs.content?_cases (Graph.lt_size_of_content? hr) with
    ⟨x, hvalue⟩ | ⟨op, left, right, hoperator⟩
  · cases hr.symm.trans hvalue
  · cases hr.symm.trans hoperator

theorem Sound.acyclic (hs : s.Sound 0 p) : s.graph.Acyclic := by
  intro r path hpath
  cases path with
  | nil => rfl
  | cons side path =>
      obtain ⟨c, hc, -⟩ := Graph.operand?_of_follow hpath
      have hmem := hs.mem_refs (Graph.lt_size_of_operand? hc)
      obtain ⟨h, htop⟩ := Plan.exists_top_of_mem hmem
      have hstands := hs.grown.stands
      exact hstands.acyclicBelow hs.grown.distinct htop r _
        (hstands.reaches htop hmem) hpath

-- ============================================================ one formula

/-- Tokens that a builder takes one after another are so many calls. -/
theorem run_add_of_feed {tokens : List String} {g' : Graph} {b' : Builder}
    (h : (s.builder.feed s.graph tokens).2 = .ok (g', b')) :
    s.run (tokens.map .add) = ⟨g', b', s.taken ++ tokens⟩ := by
  induction tokens generalizing s with
  | nil =>
      cases h
      rw [List.append_nil]
      rfl
  | cons token tokens ih =>
      cases hadd : s.builder.add s.graph token with
      | error e =>
          rw [Builder.feed_cons_error tokens hadd] at h
          cases h
      | ok result =>
          obtain ⟨g₁, b₁, splice⟩ := result
          rw [Builder.feed_cons_ok tokens hadd] at h
          show (s.call (.add token)).run (tokens.map .add) = _
          rw [call_add_ok hadd, ih h, List.append_assoc]
          rfl

/-- The bench of a new builder that has taken a formula. -/
def ofFormula (first : Numeral) (rest : List (Operator × Numeral)) : Bench :=
  (new Graph.empty).run ((alternate first rest).map .add)

theorem exists_holds_ofFormula (first : Numeral)
    (rest : List (Operator × Numeral)) :
    ∃ h, (ofFormula first rest).builder.head = some h
      ∧ (ofFormula first rest).builder.expected = .operator
      ∧ (ofFormula first rest).graph.Holds (some h)
        (Tree.ofNumerals first rest) := by
  obtain ⟨g', b', p', hfeed, hgrown, -, he, htree⟩ :=
    Builder.feed_alternate Graph.empty first rest
  obtain ⟨h, htop⟩ := Option.ne_none_iff_exists'.1
    (hgrown.isComplete he).top_ne_none
  have hrun : ofFormula first rest = _ := run_add_of_feed (s := new _) hfeed
  rw [hrun]
  exact ⟨h, hgrown.head.trans htop, he, p', htop, htree, hgrown.distinct,
    hgrown.stands⟩

-- ============================================================== one chain

/-- A one. -/
def one : Numeral := ⟨"1", by decide +kernel⟩

/-- The bench of a new builder that has taken 1 - 1 - ... - 1, with so
many operators. -/
def chain (n : Nat) : Bench := ofFormula one (List.replicate n (.sub, one))

theorem exists_sound_chain (n : Nat) : ∃ p, (chain n).Sound 0 p :=
  exists_sound Graph.empty _

/-- The tree of a long chain needs more calls than may be nested. -/
theorem exists_chain (limit n : Nat) (hn : limit < n) :
    ∃ h t, (chain n).builder.head = some h
      ∧ (chain n).builder.expected = .operator
      ∧ h < (chain n).graph.size
      ∧ (chain n).graph.Holds (some h) t
      ∧ ∀ c, ¬ t.calls c ≤ limit := by
  obtain ⟨h, hhead, he, hholds⟩ :=
    exists_holds_ofFormula one (List.replicate n (.sub, one))
  obtain ⟨_, ⟨⟩, hlt⟩ := hholds.unfolds.exists_lt_size
  refine ⟨h, _, hhead, he, hlt, hholds, Tree.not_calls_le ?_⟩
  rw [Tree.height_ofNumerals, List.length_replicate]
  · omega
  · intro pair hpair
    rw [List.eq_of_mem_replicate hpair]
    rfl

end Bench

end Formula
