/-
Feeding a list of tokens to a builder.

Which tokens are taken is a matter of the tokens alone: values and
operators in turn (`Expected.Takes`).  `Grown.feed_cases` says that a
builder takes a list from the start to the first token that is out of
turn, and what it answers to that one; no feed ends in a fault.  So the
tokens that a formula is constructed from begin and end with a value
(`alternate`), and any others are refused for a syntactic reason
(`construct_cases`).  Reading a text adds nothing to that but the log
(`parse_skip`).
-/
import Formula.Parse
import Formula.Proofs.Builder.Invariant

namespace Formula

/-- A token that writes a number. -/
structure Numeral where
  token : String
  literal : Literal.isLiteral token.toList = true

namespace Numeral

/-- The number that it writes. -/
def value (v : Numeral) : Float := Literal.value v.token.toList

theorem read?_token (v : Numeral) : Literal.read? v.token = some v.value := by
  unfold Literal.read?
  rw [if_pos v.literal]
  rfl

/-- What can be read is a numeral. -/
theorem exists_of_read? {token : String} {x : Float}
    (h : Literal.read? token = some x) : ∃ v : Numeral, v.token = token := by
  unfold Literal.read? at h
  split at h
  · next hlit => exact ⟨⟨token, hlit⟩, rfl⟩
  · cases h

end Numeral

/-- Operators and values in turn. -/
def continuation (rest : List (Operator × Numeral)) : List String :=
  rest.flatMap fun (op, v) => [op.symbol, v.token]

/-- A value, and operators and values in turn after it. -/
def alternate (first : Numeral) (rest : List (Operator × Numeral)) :
    List String :=
  first.token :: continuation rest

theorem continuation_cons (op : Operator) (v : Numeral)
    (rest : List (Operator × Numeral)) :
    continuation ((op, v) :: rest) = op.symbol :: alternate v rest := rfl

-- ============================================================== in turn

/-- Tokens that are each what is expected; the last argument is what is
expected after them. -/
inductive Expected.Takes : Expected → List String → Expected → Prop
  | done (e : Expected) : Takes e [] e
  | value {tokens : List String} {e : Expected} (v : Numeral) :
      Takes .operator tokens e → Takes .value (v.token :: tokens) e
  | operator {tokens : List String} {e : Expected} (op : Operator) :
      Takes .value tokens e → Takes .operator (op.symbol :: tokens) e

/-- Tokens after which an operator is expected are those of a formula, or
of its continuation. -/
theorem Expected.Takes.shape {tokens : List String} {e last : Expected}
    (h : Takes e tokens last) (hlast : last = .operator) :
    (e = .value → ∃ first rest, tokens = alternate first rest)
      ∧ (e = .operator → ∃ rest, tokens = continuation rest) := by
  induction h with
  | done e =>
      rw [hlast]
      exact ⟨fun he => (nomatch he), fun _ => ⟨[], rfl⟩⟩
  | value v _ ih =>
      obtain ⟨rest, htokens⟩ := (ih hlast).2 rfl
      rw [htokens]
      exact ⟨fun _ => ⟨v, rest, rfl⟩, fun he => (nomatch he)⟩
  | operator op _ ih =>
      obtain ⟨first, rest, htokens⟩ := (ih hlast).1 rfl
      rw [htokens]
      exact ⟨fun he => (nomatch he), fun _ => ⟨(op, first) :: rest, rfl⟩⟩

namespace Builder

variable {g : Graph} {b : Builder} {p : Plan}

-- ============================================================= one token

theorem feed_cons_ok {token : String} {g' : Graph} {b' : Builder}
    {splice : Option Splice} (tokens : List String)
    (h : b.add g token = .ok (g', b', splice)) :
    b.feed g (token :: tokens)
      = (splice.toList ++ (b'.feed g' tokens).1, (b'.feed g' tokens).2) := by
  simp only [feed, h]

theorem feed_cons_error {token : String} {e : Error} (tokens : List String)
    (h : b.add g token = .error e) :
    b.feed g (token :: tokens) = ([], .error e) := by
  simp only [feed, h]

-- ============================================================ all tokens

/-- What a builder answers to a token that is out of turn. -/
def Refuses (e : Expected) (token : String) (position : Nat)
    (error : Error) : Prop :=
  match e with
  | .value => Literal.read? token = none ∧ error = .notNumber token position
  | .operator =>
      Operator.ofSymbol? token = none ∧ error = .notOperator token position

theorem Refuses.isSyntactic {e : Expected} {token : String} {position : Nat}
    {error : Error} (h : Refuses e token position error) :
    error.isSyntactic = true := by
  cases e with
  | value =>
      rw [h.2]
      rfl
  | operator =>
      rw [h.2]
      rfl

/-- Everything that feeding tokens can come to: all are taken, each in its
turn, or all up to the first that is out of turn. -/
inductive FeedCases (g : Graph) (b : Builder) (tokens : List String) : Prop
  | taken (g' : Graph) (b' : Builder) (p' : Plan)
      (hfeed : (b.feed g tokens).2 = .ok (g', b')) (hgrown : Grown g' b' p')
      (hf : b'.finalized = false)
      (htakes : b.expected.Takes tokens b'.expected)
      (hposition : b'.position = b.position + tokens.length)
  | refused (before : List String) (token : String) (after : List String)
      (e : Expected) (error : Error)
      (hsplit : tokens = before ++ token :: after)
      (htakes : b.expected.Takes before e)
      (hrefuses : Refuses e token (b.position + before.length) error)
      (hfeed : (b.feed g tokens).2 = .error error)

/-- After a token that is taken the feed comes to what the rest comes
to. -/
theorem FeedCases.cons {g' : Graph} {b' : Builder} {p' : Plan}
    {token : String} {splice : Option Splice} {tokens : List String}
    (hadd : b.add g token = .ok (g', b', splice))
    (hadv : Advances g b p g' b' p')
    (hturn : ∀ later e, b'.expected.Takes later e →
      b.expected.Takes (token :: later) e)
    (h : FeedCases g' b' tokens) : FeedCases g b (token :: tokens) := by
  have hrest : (b.feed g (token :: tokens)).2 = (b'.feed g' tokens).2 := by
    rw [feed_cons_ok tokens hadd]
  have hpos := hadv.position
  cases h with
  | taken g'' b'' p'' hfeed hgrown hf htakes hposition =>
      refine .taken g'' b'' p'' (hrest.trans hfeed) hgrown hf
        (hturn _ _ htakes) ?_
      rw [hposition, List.length_cons]
      omega
  | refused before bad after e error hsplit htakes hrefuses hfeed =>
      refine .refused (token :: before) bad after e error ?_
        (hturn _ _ htakes) ?_ (hrest.trans hfeed)
      · rw [hsplit]
        rfl
      · have hat : b.position + (token :: before).length
            = b'.position + before.length := by
          rw [List.length_cons]
          omega
        rw [hat]
        exact hrefuses

theorem Grown.feed_cases (h : Grown g b p) (hf : b.finalized = false)
    (tokens : List String) : FeedCases g b tokens := by
  induction tokens generalizing g b p with
  | nil => exact .taken g b p rfl h hf (.done _) rfl
  | cons token tokens ih =>
      cases h.add_cases token with
      | closed hclosed _ =>
          rw [hf] at hclosed
          cases hclosed
      | notNumber _ he hread hadd =>
          refine .refused [] token tokens .value _ rfl ?_ ⟨hread, rfl⟩ ?_
          · rw [he]
            exact .done _
          · rw [feed_cons_error tokens hadd]
            rfl
      | notOperator _ he hread hadd =>
          refine .refused [] token tokens .operator _ rfl ?_ ⟨hread, rfl⟩ ?_
          · rw [he]
            exact .done _
          · rw [feed_cons_error tokens hadd]
            rfl
      | value x g' b' _ he hread hadd hadv =>
          obtain ⟨v, rfl⟩ := Numeral.exists_of_read? hread
          refine .cons hadd hadv (fun later e htakes => ?_)
            (ih hadv.grown (hadv.finalized.trans hf))
          rw [hadv.expected, he] at htakes
          rw [he]
          exact .value v htakes
      | operator op g' b' _ he hread hadd hadv =>
          have hsymbol := Operator.ofSymbol?_eq_some_iff.1 hread
          subst hsymbol
          refine .cons hadd hadv (fun later e htakes => ?_)
            (ih hadv.grown (hadv.finalized.trans hf))
          rw [hadv.expected, he] at htakes
          rw [he]
          exact .operator op htakes

-- ========================================================== construction

/-- Once the tokens are taken the formula is asked for. -/
theorem construct_of_feed {tokens : List String} {g' : Graph} {b' : Builder}
    (hfeed : (({} : Builder).feed g tokens).2 = .ok (g', b')) :
    (construct g tokens).2
      = (b'.build g').map fun (b, root) => (g', b, root) := by
  show (({} : Builder).feed g tokens).2 >>= _ = _
  rw [hfeed]
  show b'.build g' >>= _ = _
  cases b'.build g' with
  | error e => rfl
  | ok r => rfl

/-- A formula that is constructed is constructed from its tokens, and
nothing but a syntactic error keeps tokens from being one. -/
theorem construct_cases (g : Graph) (tokens : List String) :
    (∃ first rest g' b' root, tokens = alternate first rest
        ∧ (construct g tokens).2 = .ok (g', b', some root))
      ∨ ∃ e, (construct g tokens).2 = .error e ∧ e.isSyntactic = true := by
  cases (grown_new g).feed_cases rfl tokens with
  | refused before token after e error _ _ hrefuses hfeed =>
      refine Or.inr ⟨error, ?_, hrefuses.isSyntactic⟩
      show (({} : Builder).feed g tokens).2 >>= _ = _
      rw [hfeed]
      rfl
  | taken g' b' p' hfeed hgrown hf htakes _ =>
      rw [construct_of_feed hfeed]
      cases hgrown.build_cases with
      | closed hclosed _ =>
          rw [hf] at hclosed
          cases hclosed
      | empty _ _ _ hbuild =>
          rw [hbuild]
          exact Or.inr ⟨.empty b'.position, rfl, rfl⟩
      | trailing q op _ _ _ hbuild =>
          rw [hbuild]
          exact Or.inr ⟨.trailing op.symbol (b'.position - 1), rfl, rfl⟩
      | built _ he hbuild =>
          obtain ⟨first, rest, htokens⟩ := (htakes.shape he).1 rfl
          obtain ⟨root, htop⟩ := Option.ne_none_iff_exists'.1
            (hgrown.isComplete he).top_ne_none
          rw [hbuild, htop]
          exact Or.inl ⟨first, rest, g', _, root, htokens, rfl⟩

end Builder

/-- A text that is not inspected is read as far as its tokens construct a
formula. -/
theorem parse_skip (log : Log) (g : Graph) (text : String) :
    (parse log g text .skip).2
      = (Builder.construct g (Token.tokenize text)).2.map
        fun (g', _, root) => (g', root) := by
  unfold parse
  dsimp only
  cases (Builder.construct g (Token.tokenize text)).2 with
  | error e =>
      dsimp only
      split
      · rfl
      · rfl
  | ok r => rfl

end Formula
