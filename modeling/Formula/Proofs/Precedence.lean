/-
Precedence.  The convention is about whole formulas: cut at every + and -,
fold each piece from the left over its * and / into a term, and fold the
terms from the left (`Tree.byConvention`).  The builder never sees a
piece; it takes one operator at a time and splices it in.

# The bridge

On trees, an operator and the value after it are one step: `extend` puts
them above the highest part on the right edge that binds at least as
tightly.  A plan that takes both grows by that step
(`Plan.tree?_splice_fill`), so what is constructed is a fold of steps,
and `foldl_extend` says that the fold follows the convention.  Its
induction keeps the part under work apart from what is already settled:
a term `t` in a context `K` that leaves * and / to the term.
-/
import Formula.Proofs.Builder.Feed

namespace Formula

/-- Whether an operator stands between terms. -/
def Operator.isAdditive : Operator → Bool
  | .add | .sub => true
  | .mul | .div => false

/-- Cuts a continuation at every additive operator: what comes before the
first, and every additive operator with the value after it and what comes
up to the next. -/
def cutTerms {α : Type} : List (Operator × α) →
    List (Operator × α) × List (Operator × α × List (Operator × α))
  | [] => ([], [])
  | (op, x) :: rest =>
      let (factors, terms) := cutTerms rest
      if op.isAdditive then ([], (op, x, factors) :: terms)
      else ((op, x) :: factors, terms)

namespace Tree

/-- Multiplies and divides a tree from the left. -/
def factor (t : Tree) (factors : List (Operator × Float)) : Tree :=
  factors.foldl (fun t (op, x) => .node op t (.leaf x)) t

/-- Adds and subtracts terms from the left. -/
def sum (t : Tree) (terms : List (Operator × Float × List (Operator × Float))) :
    Tree :=
  terms.foldl (fun t (op, x, factors) =>
    .node op t ((Tree.leaf x).factor factors)) t

/-- The tree of a formula by the usual convention: * and / bind before +
and -, and equals group to the left. -/
def byConvention (x : Float) (rest : List (Operator × Float)) : Tree :=
  let (factors, terms) := cutTerms rest
  ((Tree.leaf x).factor factors).sum terms

/-- The tree that numerals and the operators between them make. -/
def ofNumerals (first : Numeral) (rest : List (Operator × Numeral)) : Tree :=
  byConvention first.value (rest.map fun (op, v) => (op, v.value))

/-- The tree with an operator and a value spliced in at its right edge. -/
def extend (op : Operator) (x : Float) : Tree → Tree
  | .leaf y => .node op (.leaf y) (.leaf x)
  | .node o left right =>
      if op.rank ≤ o.rank then .node op (.node o left right) (.leaf x)
      else .node o left (right.extend op x)

/-- No additive operator on top. -/
def IsTerm : Tree → Prop
  | .leaf _ => True
  | .node op _ _ => op.isAdditive = false

-- =========================================================== one step

/-- An additive operator comes above everything. -/
theorem extend_additive {op : Operator} (h : op.isAdditive = true) (x : Float)
    (t : Tree) : t.extend op x = .node op t (.leaf x) := by
  have hrank : op.rank = 0 := by
    cases op with
    | add | sub => rfl
    | mul | div => cases h
  cases t with
  | leaf y => rfl
  | node o left right =>
      rw [extend, hrank, if_pos (Nat.zero_le _)]

/-- A multiplicative operator comes above a term. -/
theorem extend_term {op : Operator} (h : op.isAdditive = false) (x : Float)
    {t : Tree} (ht : t.IsTerm) : t.extend op x = .node op t (.leaf x) := by
  cases t with
  | leaf y => rfl
  | node o left right =>
      have hle : op.rank ≤ o.rank := by
        cases op with
        | add | sub => cases h
        | mul | div =>
            cases o with
            | add | sub => cases ht
            | mul | div => exact Nat.le_refl 1
      rw [extend, if_pos hle]

/-- It leaves a sum alone but for the last term. -/
theorem extend_sum {op o : Operator} (h : op.isAdditive = false)
    (ho : o.isAdditive = true) (x : Float) (s t : Tree) :
    (Tree.node o s t).extend op x = .node o s (t.extend op x) := by
  have hlt : ¬ op.rank ≤ o.rank := by
    cases op with
    | add | sub => cases h
    | mul | div =>
        cases o with
        | add | sub => exact Nat.not_succ_le_zero 0
        | mul | div => cases ho
  rw [extend, if_neg hlt]

-- ============================================================ all steps

/-- A context that leaves multiplicative operators to the term in it. -/
def LeavesFactors (K : Tree → Tree) : Prop :=
  ∀ (op : Operator) (x : Float) (t : Tree), op.isAdditive = false → t.IsTerm →
    (K t).extend op x = K (.node op t (.leaf x))

theorem leavesFactors_id : LeavesFactors fun t => t := fun _ x _ hop ht =>
  extend_term hop x ht

theorem leavesFactors_node {o : Operator} (ho : o.isAdditive = true)
    (s : Tree) : LeavesFactors (.node o s) := by
  intro op x t hop ht
  rw [extend_sum hop ho, extend_term hop x ht]

/-- Splicing in one pair after another follows the convention. -/
theorem foldl_extend {K : Tree → Tree} (hK : LeavesFactors K) {t : Tree}
    (ht : t.IsTerm) (rest : List (Operator × Float)) :
    rest.foldl (fun t (op, x) => t.extend op x) (K t)
      = (K (t.factor (cutTerms rest).1)).sum (cutTerms rest).2 := by
  induction rest generalizing K t with
  | nil => rfl
  | cons pair rest ih =>
      obtain ⟨op, x⟩ := pair
      rw [List.foldl_cons]
      cases hop : op.isAdditive with
      | true =>
          -- the tree so far is settled, and a new term begins
          have hcut : cutTerms ((op, x) :: rest)
              = ([], (op, x, (cutTerms rest).1) :: (cutTerms rest).2) := by
            simp only [cutTerms, hop, if_true]
          rw [hcut]
          show rest.foldl _ ((K t).extend op x) = _
          rw [extend_additive hop x (K t)]
          exact ih (t := .leaf x) (leavesFactors_node hop (K t)) trivial
      | false =>
          -- the term goes on
          have hcut : cutTerms ((op, x) :: rest)
              = ((op, x) :: (cutTerms rest).1, (cutTerms rest).2) := by
            simp only [cutTerms, hop, Bool.false_eq_true, if_false]
          rw [hcut]
          show rest.foldl _ ((K t).extend op x) = _
          rw [hK op x t hop ht]
          exact ih (t := .node op t (.leaf x)) hK hop

theorem foldl_extend_leaf (x : Float) (rest : List (Operator × Float)) :
    rest.foldl (fun t (op, x) => t.extend op x) (Tree.leaf x)
      = byConvention x rest :=
  foldl_extend leavesFactors_id (t := .leaf x) trivial rest

end Tree

-- ============================================================= on plans

/-- A plan that takes an operator and a value grows by one step of its
tree. -/
theorem Plan.tree?_splice_fill {p : Plan} {t : Tree} (h : p.tree? = some t)
    (n m : Ref) (op : Operator) (x : Float) :
    ((p.splice n op).fill m x).tree? = some (t.extend op x) := by
  induction p generalizing t with
  | vacant => cases h
  | leaf r y =>
      injection h with h
      subst h
      rfl
  | node r o left right _ ihr =>
      rw [tree?] at h
      split at h
      · next l t' hl ht =>
        injection h with h
        subst h
        rw [splice, Tree.extend]
        by_cases hle : op.rank ≤ o.rank
        · rw [if_pos hle, if_pos hle]
          simp only [fill, tree?, hl, ht]
        · rw [if_neg hle, if_neg hle]
          simp only [fill, tree?, hl, ihr ht]
      · cases h

namespace Builder

variable {g : Graph} {b : Builder} {p : Plan}

/-- A builder takes a continuation and grows by its steps. -/
theorem Grown.feed_continuation (h : Grown g b p) (hf : b.finalized = false)
    (he : b.expected = .operator) {t : Tree} (ht : p.tree? = some t)
    (rest : List (Operator × Numeral)) :
    ∃ g' b' p', (b.feed g (continuation rest)).2 = .ok (g', b')
      ∧ Grown g' b' p' ∧ b'.finalized = false ∧ b'.expected = .operator
      ∧ p'.tree? = some ((rest.map fun (op, v) => (op, v.value)).foldl
        (fun t (op, x) => t.extend op x) t) := by
  induction rest generalizing g b p t with
  | nil => exact ⟨g, b, p, rfl, h, hf, he, ht⟩
  | cons pair rest ih =>
      obtain ⟨op, v⟩ := pair
      obtain ⟨g₁, b₁, hadd₁, hadv₁⟩ :=
        h.add_operator hf he (Operator.ofSymbol?_symbol op)
      have hf₁ := hadv₁.finalized.trans hf
      have he₁ : b₁.expected = .value := by
        rw [hadv₁.expected, he]
        rfl
      obtain ⟨g₂, b₂, hadd₂, hadv₂⟩ :=
        hadv₁.grown.add_value hf₁ he₁ v.read?_token
      have hf₂ := hadv₂.finalized.trans hf₁
      have he₂ : b₂.expected = .operator := by
        rw [hadv₂.expected, he₁]
        rfl
      have ht₂ := Plan.tree?_splice_fill ht g.size g₁.size op v.value
      obtain ⟨g', b', p', hfeed, hrest⟩ := ih hadv₂.grown hf₂ he₂ ht₂
      refine ⟨g', b', p', ?_, hrest⟩
      rw [continuation_cons, alternate, feed_cons_ok _ hadd₁,
        feed_cons_ok _ hadd₂]
      exact hfeed

/-- A new builder takes the tokens of a formula and has its tree by the
convention. -/
theorem feed_alternate (g : Graph) (first : Numeral)
    (rest : List (Operator × Numeral)) :
    ∃ g' b' p', (({} : Builder).feed g (alternate first rest)).2 = .ok (g', b')
      ∧ Grown g' b' p' ∧ b'.finalized = false ∧ b'.expected = .operator
      ∧ p'.tree? = some (Tree.ofNumerals first rest) := by
  obtain ⟨g₁, b₁, hadd, hadv⟩ :=
    (grown_new g).add_value rfl rfl first.read?_token
  obtain ⟨g', b', p', hfeed, hgrown, hf, he, htree⟩ :=
    hadv.grown.feed_continuation (hadv.finalized.trans rfl)
      (hadv.expected.trans rfl) (t := .leaf first.value) rfl rest
  rw [Tree.foldl_extend_leaf] at htree
  refine ⟨g', b', p', ?_, hgrown, hf, he, htree⟩
  rw [alternate, feed_cons_ok _ hadd]
  exact hfeed

/-- The tokens of a formula construct its tree by the convention. -/
theorem construct_alternate (g : Graph) (first : Numeral)
    (rest : List (Operator × Numeral)) :
    ∃ g' b' root,
      (construct g (alternate first rest)).2 = .ok (g', b', some root)
        ∧ g'.Holds (some root) (Tree.ofNumerals first rest) := by
  obtain ⟨g', b', p', hfeed, hgrown, hf, he, htree⟩ :=
    feed_alternate g first rest
  obtain ⟨root, htop⟩ := Option.ne_none_iff_exists'.1
    (hgrown.isComplete he).top_ne_none
  refine ⟨g', { b' with finalized := true }, root, ?_, p', htop, htree,
    hgrown.distinct, hgrown.stands⟩
  cases hgrown.build_cases with
  | closed hclosed _ =>
      rw [hf] at hclosed
      cases hclosed
  | empty _ hvalue _ _ | trailing _ _ _ hvalue _ _ =>
      rw [he] at hvalue
      cases hvalue
  | built _ _ hbuild =>
      rw [construct_of_feed hfeed, hbuild, htop]
      rfl

end Builder

-- ============================================================= on texts

/-- Values with operators between them are a formula, whether a new
builder takes them or a text spells them, and below its root is its tree
by the convention and no other. -/
theorem formula_byConvention (g : Graph) (first : Numeral)
    (rest : List (Operator × Numeral)) :
    (∃ g' b' root,
      (Builder.construct g (alternate first rest)).2
          = .ok (g', b', some root)
        ∧ ∀ t, g'.Holds (some root) t ↔ t = Tree.ofNumerals first rest)
      ∧ ∀ log text, Token.tokenize text = alternate first rest →
        ∃ g' root, (parse log g text .skip).2 = .ok (g', some root)
          ∧ ∀ t, g'.Holds (some root) t ↔ t = Tree.ofNumerals first rest := by
  obtain ⟨g', b', root, hconstruct, hholds⟩ :=
    Builder.construct_alternate g first rest
  refine ⟨⟨g', b', root, hconstruct, fun t => hholds.iff_eq⟩, ?_⟩
  intro log text htokens
  refine ⟨g', root, ?_, fun t => hholds.iff_eq⟩
  rw [parse_skip, htokens, hconstruct]
  rfl

/-- Both kinds of splice, a point at either end of a numeral, and blanks
within a gap. -/
theorem formula_byConvention_mixed :
    let first : Numeral := ⟨"2", by decide +kernel⟩
    let rest : List (Operator × Numeral) :=
      [(.mul, ⟨".5", by decide +kernel⟩), (.sub, ⟨"4", by decide +kernel⟩),
        (.div, ⟨"8.", by decide +kernel⟩), (.add, ⟨"3", by decide +kernel⟩)]
    Token.tokenize " 2*.5-4\t/ 8.+3" = alternate first rest
      ∧ ∃ g' root,
        (parse {} Graph.empty " 2*.5-4\t/ 8.+3" .skip).2
            = .ok (g', some root)
          ∧ ∀ t, g'.Holds (some root) t ↔ t = Tree.ofNumerals first rest := by
  intro first rest
  have htokens : Token.tokenize " 2*.5-4\t/ 8.+3" = alternate first rest := by
    decide +kernel
  exact ⟨htokens, (formula_byConvention Graph.empty first rest).2 {} _ htokens⟩

end Formula
