/-
Validity.  A graph is valid below a node when validation has nothing to
say, and that is so just when the node is the parentless top of a tree
that the graph has a copy of (`isValid_iff_holds`).  On such a graph
nothing that reads a formula fails, and each reader comes to what the
tree comes to.  Only the evaluation by recursion fails on a tree that
needs more nested calls than there may be, and such a tree is as valid as
any (`isValid_chain`).

Validation words what it finds, and a node without a label has no
wording; an operator node that lacks its operator is the only such node.
So the statement is about graphs whose operator nodes are equipped, and
there validation always comes to an answer (`isValid_eq`).
-/
import Formula.Proofs.Builder.Chain
import Formula.Proofs.Plan.Violations

namespace Formula.Graph

variable {g : Graph}

-- ============================================================== wording

theorem exists_label (hops : g.Equipped) (r : Option Ref) :
    ∃ text, g.label r = .ok text := by
  unfold label
  cases hc : r.bind g.content? with
  | none => exact ⟨_, rfl⟩
  | some c =>
      cases c with
      | value x => exact ⟨_, rfl⟩
      | foreign => exact ⟨_, rfl⟩
      | operator op left right =>
          cases op with
          | some o => exact ⟨_, rfl⟩
          | none =>
              obtain ⟨s, -, hs⟩ := Option.bind_eq_some_iff.1 hc
              exact absurd hs (hops s left right)

theorem exists_describe (hops : g.Equipped) (v : Violation) :
    ∃ text, g.describe v = .ok text := by
  cases v with
  | noRoot => exact ⟨_, rfl⟩
  | foreign r => exact ⟨_, rfl⟩
  | rootHasParent r | repeated r | missing r side =>
      obtain ⟨text, htext⟩ := exists_label hops (some r)
      simp only [describe, htext]
      exact ⟨_, rfl⟩
  | stray r side child =>
      obtain ⟨text, htext⟩ := exists_label hops (some r)
      obtain ⟨text', htext'⟩ := exists_label hops (some child)
      simp only [describe, htext, htext']
      exact ⟨_, rfl⟩

/-- Validation comes to an answer, the wording of what it found. -/
theorem exists_words (hops : g.Equipped) (root : Option Ref) :
    ∃ words, (∀ v, g.describe v = .ok (words v))
      ∧ g.validate root = .ok ((g.violations root).map words) := by
  choose words hwords using exists_describe hops
  have hpure : g.describe = fun v => pure (words v) := funext hwords
  refine ⟨words, hwords, ?_⟩
  unfold validate
  rw [hpure, List.mapM_pure]
  rfl

/-- A graph is valid where validation found nothing. -/
theorem isValid_eq (hops : g.Equipped) (root : Option Ref) :
    g.isValid root = .ok (g.violations root).isEmpty := by
  obtain ⟨words, -, hvalidate⟩ := exists_words hops root
  unfold isValid
  rw [hvalidate]
  show Except.ok ((g.violations root).map words).isEmpty = _
  rw [List.isEmpty_map]

-- ============================================================= validity

/-- Whatever the links: a graph is valid below a place just when there is
a node without a parent and below it a copy of a tree, and then every
reader comes to that tree's readings, the evaluation by recursion if it
may nest as many calls as the tree needs. -/
theorem isValid_iff_holds (g : Graph) (hops : g.Equipped) (root : Option Ref)
    (hroot : ∀ r, root = some r → r < g.size) :
    ∃ valid, g.isValid root = .ok valid
      ∧ (valid = true
        ↔ ∃ r t, root = some r ∧ g.parent? r = none ∧ g.Holds root t)
      ∧ (valid = true → ∃ t, g.Holds root t
        ∧ (∀ log, (g.evaluateReporting log root).2 = .ok t.value)
        ∧ (∀ c limit, g.evaluateQuietly c limit root
          = if t.calls c ≤ limit then .ok t.value
            else .error (.fault .tooDeep))
        ∧ g.render root = .ok t.text
        ∧ g.sizeBelow root = .ok t.size
        ∧ g.height root = t.height) := by
  have htree : (g.violations root).isEmpty = true → ∃ t, g.Holds root t := by
    intro hempty
    cases root with
    | none => cases hempty
    | some r =>
        exact exists_holds hops (hroot r rfl) (List.isEmpty_iff.1 hempty)
  refine ⟨_, isValid_eq hops root, ⟨fun hvalid => ?_, ?_⟩, fun hvalid => ?_⟩
  · obtain ⟨t, ht⟩ := htree hvalid
    obtain ⟨r, hr, hparent⟩ := ht.exists_root
    exact ⟨r, t, hr, hparent, ht⟩
  · rintro ⟨r, t, -, -, ht⟩
    exact List.isEmpty_iff.2 ht.violations_eq_nil
  · obtain ⟨t, ht⟩ := htree hvalid
    exact ⟨t, ht, ht.evaluateReporting, ht.evaluateQuietly, ht.render,
      ht.sizeBelow, ht.height⟩

/-- A sum is valid, and a product with that sum on both sides is not. -/
theorem isValid_iff_holds_sum :
    let g : Graph := ⟨#[⟨.value 1, some 2⟩, ⟨.value 2, some 2⟩,
      ⟨.operator (some .add) (some 0) (some 1), none⟩,
      ⟨.operator (some .mul) (some 2) (some 2), none⟩]⟩
    g.Equipped ∧ g.isValid (some 2) = .ok true
      ∧ (∃ t, g.Holds (some 2) t ∧ g.render (some 2) = .ok t.text
        ∧ g.height (some 2) = t.height)
      ∧ g.isValid (some 3) = .ok false ∧ ¬ ∃ t, g.Holds (some 3) t := by
  intro g
  have hops : g.Equipped := by
    intro r left right h
    match r with
    | 0 | 1 | 2 | 3 => cases h
    | _ + 4 => cases h
  have hsum : g.isValid (some 2) = .ok true := by cbv
  have hshared : g.isValid (some 3) = .ok false := by
    rw [isValid_eq hops]
    cbv
  obtain ⟨valid, hvalid, -, hreads⟩ := isValid_iff_holds g hops (some 2) (by
    rintro r ⟨⟩
    decide)
  obtain ⟨valid', hvalid', hiff', -⟩ := isValid_iff_holds g hops (some 3) (by
    rintro r ⟨⟩
    decide)
  rw [hsum] at hvalid
  rw [hshared] at hvalid'
  cases hvalid
  cases hvalid'
  obtain ⟨t, ht, -, -, htext, -, hheight⟩ := hreads rfl
  refine ⟨hops, hsum, ⟨t, ht, htext, hheight⟩, hshared, ?_⟩
  rintro ⟨t, ht⟩
  obtain ⟨r, hr, hparent⟩ := ht.exists_root
  exact absurd (hiff'.2 ⟨r, t, hr, hparent, ht⟩) Bool.false_ne_true

/-- A chain of two thousand differences is valid, and no evaluation by
recursion that may nest a thousand calls comes to its end. -/
theorem isValid_chain :
    ∃ h, (Bench.chain 2000).builder.head = some h
      ∧ h < (Bench.chain 2000).graph.size
      ∧ (Bench.chain 2000).graph.Equipped
      ∧ (Bench.chain 2000).graph.isValid (some h) = .ok true
      ∧ ∀ c, (Bench.chain 2000).graph.evaluateQuietly c 1000 (some h)
        = .error (.fault .tooDeep) := by
  obtain ⟨h, t, hhead, -, hlt, hholds, hdeep⟩ :=
    Bench.exists_chain 1000 2000 (by decide)
  obtain ⟨p, hs⟩ := Bench.exists_sound_chain 2000
  refine ⟨h, hhead, hlt, hs.equipped, ?_, fun c => ?_⟩
  · rw [isValid_eq hs.equipped, hholds.violations_eq_nil]
    rfl
  · rw [hholds.evaluateQuietly, if_neg (hdeep c)]

end Formula.Graph
