/-
What a text that is read comes to.  Whatever the inspection, what is
handed back was constructed from the text's tokens (`exists_construct`),
so the tokens are those of a formula and the graph holds the formula's
tree (`exists_holds_of_parse`).  The tree is valid; so an inspection that
validates lets through all that one that skips lets through, and reading
comes to the same with either (`parse_validate`).
-/
import Formula.Proofs.Plan.Violations
import Formula.Proofs.Precedence

namespace Formula

variable {log : Log} {g g' : Graph} {text : String} {root : Option Ref}

theorem Numeral.eq_of_token {v w : Numeral} (h : v.token = w.token) :
    v = w := by
  cases v
  cases w
  cases h
  rfl

/-- The tokens of a formula tell its values and operators. -/
theorem alternate_inj {first first' : Numeral}
    {rest rest' : List (Operator × Numeral)}
    (h : alternate first rest = alternate first' rest') :
    first = first' ∧ rest = rest' := by
  induction rest generalizing first first' rest' with
  | nil =>
      obtain ⟨htoken, hnil⟩ := List.cons.inj h
      refine ⟨Numeral.eq_of_token htoken, ?_⟩
      cases rest' with
      | nil => rfl
      | cons pair rest' => cases hnil
  | cons pair rest ih =>
      obtain ⟨htoken, htail⟩ := List.cons.inj h
      cases rest' with
      | nil => cases htail
      | cons pair' rest' =>
          obtain ⟨hsymbol, hrest⟩ := List.cons.inj htail
          obtain ⟨hvalue, hrest⟩ := ih hrest
          refine ⟨Numeral.eq_of_token htoken, ?_⟩
          rw [hrest, Prod.ext (Operator.symbol_injective hsymbol) hvalue]

/-- What is constructed is the tree of the tokens. -/
theorem Builder.construct_holds {tokens : List String} {b' : Builder}
    (h : (construct g tokens).2 = .ok (g', b', root)) :
    ∃ first rest, tokens = alternate first rest
      ∧ g'.Holds root (Tree.ofNumerals first rest) := by
  rcases construct_cases g tokens with
    ⟨first, rest, -, -, -, htokens, -⟩ | ⟨e, herror, -⟩
  · obtain ⟨g₁, b₁, root₁, hok, hholds⟩ := construct_alternate g first rest
    rw [htokens, hok] at h
    cases h
    exact ⟨first, rest, htokens, hholds⟩
  · rw [herror] at h
    cases h

/-- An inspection may refuse what was constructed, and changes nothing. -/
theorem exists_construct {inspection : Inspection}
    (h : (parse log g text inspection).2 = .ok (g', root)) :
    ∃ b', (Builder.construct g (Token.tokenize text)).2
      = .ok (g', b', root) := by
  unfold parse at h
  dsimp only at h
  cases hconstruct : (Builder.construct g (Token.tokenize text)).2 with
  | error e =>
      rw [hconstruct] at h
      dsimp only at h
      split at h
      · cases h
      · cases h
  | ok r =>
      obtain ⟨g₁, b₁, root₁⟩ := r
      rw [hconstruct] at h
      dsimp only at h
      split at h
      · cases h
      · cases h
        exact ⟨b₁, rfl⟩
      · cases h

theorem exists_holds_of_parse {inspection : Inspection}
    (h : (parse log g text inspection).2 = .ok (g', root)) :
    ∃ first rest, Token.tokenize text = alternate first rest
      ∧ g'.Holds root (Tree.ofNumerals first rest) := by
  obtain ⟨b', hconstruct⟩ := exists_construct h
  exact Builder.construct_holds hconstruct

/-- A text with the tokens of a formula is read, from whatever graph. -/
theorem exists_parse_of_tokenize (log : Log) (g : Graph) {first : Numeral}
    {rest : List (Operator × Numeral)}
    (h : Token.tokenize text = alternate first rest) :
    ∃ g' root, (parse log g text .skip).2 = .ok (g', some root)
      ∧ g'.Holds (some root) (Tree.ofNumerals first rest) := by
  obtain ⟨g', b', root, hconstruct, hholds⟩ :=
    Builder.construct_alternate g first rest
  refine ⟨g', root, ?_, hholds⟩
  rw [parse_skip, h, hconstruct]
  rfl

theorem Graph.Holds.validate {t : Tree} (h : g.Holds root t) :
    g.validate root = .ok [] := by
  unfold Graph.validate
  rw [h.violations_eq_nil]
  rfl

/-- Validation finds nothing wrong with what was constructed. -/
theorem parse_validate (log : Log) (g : Graph) (text : String) :
    (parse log g text .validate).2 = (parse log g text .skip).2 := by
  unfold parse
  dsimp only
  cases hconstruct : (Builder.construct g (Token.tokenize text)).2 with
  | error e => rfl
  | ok r =>
      obtain ⟨g₁, b₁, root₁⟩ := r
      obtain ⟨first, rest, -, hholds⟩ := Builder.construct_holds hconstruct
      dsimp only [Inspection.findings]
      rw [hholds.validate]

end Formula
