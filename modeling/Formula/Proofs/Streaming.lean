/-
Evaluation in one pass.  A tally goes through a formula from left to right
with two accumulators, the term under work and the sum of the terms before
it, and never builds a tree.  What is read from a text and evaluated comes
to the tally of its tokens (`evaluate_parse_eq_tally`), whatever the
operators compute: nothing here is known of addition or multiplication but
the order in which they are applied, which is why the two agree to the
last bit.

A tally stands for a tree (`Represents`) when its term is the last term of
the tree and its sum all that comes before.  Taking an operator and a value
is then the step by which trees grow (`Tree.extend`), and the induction
over the whole formula has one case.
-/
import Formula.Proofs.Parse

namespace Formula

/-- The two accumulators: the terms before this one, summed up, with the
operator that will join this one to them; and this term as far as it
goes. -/
structure Tally where
  settled : Option (Float × Operator) := none
  term : Float

namespace Tally

variable (apply : Operator → Float → Float → Float)

/-- The sum with this term folded in. -/
def total (s : Tally) : Float :=
  match s.settled with
  | none => s.term
  | some (sum, pending) => apply pending sum s.term

/-- Takes an operator and the value after it. -/
def step (s : Tally) : Operator × Float → Tally
  | (op, x) =>
      match op with
      | .mul | .div => { s with term := apply op s.term x }
      | .add | .sub => { settled := some (s.total apply, op), term := x }

/-- What a formula comes to in one pass. -/
def evaluate (x : Float) (rest : List (Operator × Float)) : Float :=
  (rest.foldl (step apply) { term := x }).total apply

-- ============================================================== one step

/-- The tree whose last term is the tally's term, after its sum. -/
inductive Represents : Tally → Tree → Prop
  | term {t : Tree} (ht : t.IsTerm) : Represents ⟨none, t.fold id apply⟩ t
  | sum {op : Operator} {s t : Tree} (hop : op.isAdditive = true)
      (ht : t.IsTerm) :
      Represents ⟨some (s.fold id apply, op), t.fold id apply⟩ (.node op s t)

variable {apply} {s : Tally} {t : Tree}

theorem Represents.total (h : Represents apply s t) :
    s.total apply = t.fold id apply := by
  cases h with
  | term ht => rfl
  | sum hop ht => rfl

theorem step_additive {op : Operator} (h : op.isAdditive = true) (s : Tally)
    (x : Float) :
    s.step apply (op, x) = ⟨some (s.total apply, op), x⟩ := by
  cases op with
  | add | sub => rfl
  | mul | div => cases h

theorem step_multiplicative {op : Operator} (h : op.isAdditive = false)
    (s : Tally) (x : Float) :
    s.step apply (op, x) = ⟨s.settled, apply op s.term x⟩ := by
  cases op with
  | add | sub => cases h
  | mul | div => rfl

theorem Represents.step (h : Represents apply s t) (op : Operator)
    (x : Float) :
    Represents apply (s.step apply (op, x)) (t.extend op x) := by
  cases hop : op.isAdditive with
  | true =>
      -- all so far is settled, and the value begins a new term
      rw [step_additive hop, h.total, Tree.extend_additive hop]
      exact .sum (t := .leaf x) hop trivial
  | false =>
      rw [step_multiplicative hop]
      cases h with
      | term ht =>
          rw [Tree.extend_term hop x ht]
          exact .term (t := .node op t (.leaf x)) hop
      | @sum o s t ho ht =>
          rw [Tree.extend_sum hop ho, Tree.extend_term hop x ht]
          exact .sum (t := .node op t (.leaf x)) ho hop

-- ============================================================= all steps

theorem Represents.foldl (h : Represents apply s t)
    (rest : List (Operator × Float)) :
    Represents apply (rest.foldl (Tally.step apply) s)
      (rest.foldl (fun t (op, x) => t.extend op x) t) := by
  induction rest generalizing s t with
  | nil => exact h
  | cons pair rest ih => exact ih (h.step pair.1 pair.2)

/-- Folding the tree of a formula comes to its tally. -/
theorem fold_byConvention (x : Float) (rest : List (Operator × Float)) :
    (Tree.byConvention x rest).fold id apply = evaluate apply x rest := by
  have h : Represents apply { term := x } (.leaf x) := .term (t := .leaf x) trivial
  rw [← Tree.foldl_extend_leaf, ← (h.foldl rest).total]
  rfl

end Tally

-- ============================================================== on texts

/-- A text that is read and evaluated comes to the tally of its tokens,
and would so whatever the operators computed. -/
theorem evaluate_parse_eq_tally (log log' : Log) (g g' : Graph)
    (text : String) (inspection : Inspection) (root : Option Ref)
    (h : (parse log g text inspection).2 = .ok (g', root)) :
    ∃ first rest, Token.tokenize text = alternate first rest
      ∧ (g'.evaluateReporting log' root).2
        = .ok (Tally.evaluate Operator.apply first.value
          (rest.map fun (op, v) => (op, v.value)))
      ∧ ∀ apply, g'.fold id apply root
        = .ok (Tally.evaluate apply first.value
          (rest.map fun (op, v) => (op, v.value))) := by
  obtain ⟨first, rest, htokens, hholds⟩ := exists_holds_of_parse h
  refine ⟨first, rest, htokens, ?_, fun apply => ?_⟩
  · rw [hholds.evaluateReporting, ← Tree.fold_value, Tree.ofNumerals,
      Tally.fold_byConvention]
  · rw [Graph.fold_eq_foldDeep, hholds.foldDeep, Tree.ofNumerals,
      Tally.fold_byConvention]

/-- Differences, which group to the left, around a term of three
factors. -/
theorem evaluate_parse_eq_tally_difference :
    let first : Numeral := ⟨"9", by decide +kernel⟩
    let rest : List (Operator × Numeral) :=
      [(.sub, ⟨"6", by decide +kernel⟩), (.div, ⟨"1.5", by decide +kernel⟩),
        (.mul, ⟨"7", by decide +kernel⟩), (.sub, ⟨"5", by decide +kernel⟩)]
    ∃ g' root, (parse {} Graph.empty "9-6/1.5*7-5" .validate).2 = .ok (g', root)
      ∧ (g'.evaluateReporting {} root).2
        = .ok (Tally.evaluate Operator.apply first.value
          (rest.map fun (op, v) => (op, v.value))) := by
  intro first rest
  have htokens : Token.tokenize "9-6/1.5*7-5" = alternate first rest := by
    decide +kernel
  obtain ⟨g', b', root, hconstruct, -⟩ :=
    Builder.construct_alternate Graph.empty first rest
  have hparse : (parse {} Graph.empty "9-6/1.5*7-5" .validate).2
      = .ok (g', some root) := by
    rw [parse_validate, parse_skip, htokens, hconstruct]
    rfl
  obtain ⟨first', rest', htokens', hvalue, -⟩ :=
    evaluate_parse_eq_tally {} {} Graph.empty g' _ .validate _ hparse
  obtain ⟨rfl, rfl⟩ := alternate_inj (htokens'.symm.trans htokens)
  exact ⟨g', some root, hparse, hvalue⟩

end Formula
