/-
Why a text is refused.  Numbers stand at the even places among the tokens
of a formula and operators at the odd ones.  The first token that is out
of turn is what a refusal is about: its place tells the kind of error, and
token and place are what the error carries.  If all are in turn and the
last is an operator, that operator is what the refusal is about; if there
are none, the formula is empty.  There is no other refusal, and validation
adds none (`parse_first_defect`).

The builder reports from what it remembers: what it expects, how many
tokens it has taken, and, where the formula ends early, the operator of
the node that it added last.  `Verdict` is the same said of the tokens
alone.
-/
import Formula.Proofs.Grammar
import Formula.Proofs.Parse

namespace Formula

/-- What may stand at a place among the tokens of a formula. -/
def InTurn (i : Nat) (token : String) : Prop :=
  if i % 2 = 0 then IsNumber token.toList else token ∈ ["+", "-", "*", "/"]

/-- Some token stands at the place, and it is out of turn. -/
def Misplaced (tokens : List String) (i : Nat) : Prop :=
  ∃ token, tokens[i]? = some token ∧ ¬ InTurn i token

/-- What a token out of turn is refused with. -/
def outOfTurn (i : Nat) (token : String) : Error :=
  if i % 2 = 0 then .notNumber token i else .notOperator token i

/-- What is expected at a place. -/
def Expected.turn (i : Nat) : Expected :=
  if i % 2 = 0 then .value else .operator

-- ========================================================= single tokens

theorem Operator.mem_symbols_iff {token : String} :
    token ∈ ["+", "-", "*", "/"] ↔ ∃ op : Operator, token = op.symbol := by
  constructor
  · intro h
    simp only [List.mem_cons, List.not_mem_nil, or_false] at h
    rcases h with rfl | rfl | rfl | rfl
    · exact ⟨.add, rfl⟩
    · exact ⟨.sub, rfl⟩
    · exact ⟨.mul, rfl⟩
    · exact ⟨.div, rfl⟩
  · rintro ⟨op, rfl⟩
    cases op <;> simp [Operator.symbol]

theorem Expected.turn_succ {e : Expected} {k : Nat} (h : e = turn k) :
    e.next = turn (k + 1) := by
  unfold turn at h ⊢
  rcases Nat.mod_two_eq_zero_or_one k with hk | hk
  · rw [h, if_pos hk, if_neg (by omega)]
    rfl
  · rw [h, if_neg (by omega), if_pos (by omega)]
    rfl

theorem Expected.even_of_turn {k : Nat} (h : .value = turn k) : k % 2 = 0 := by
  by_contra hodd
  rw [turn, if_neg hodd] at h
  cases h

theorem Expected.odd_of_turn {k : Nat} (h : .operator = turn k) :
    k % 2 ≠ 0 := by
  intro heven
  rw [turn, if_pos heven] at h
  cases h

/-- A token is refused where it is out of turn. -/
theorem Builder.Refuses.outOfTurn {e : Expected} {k : Nat} {token : String}
    {error : Error} (h : Refuses e token k error) (he : e = Expected.turn k) :
    ¬ InTurn k token ∧ error = outOfTurn k token := by
  cases e with
  | value =>
      obtain ⟨hread, rfl⟩ := h
      have heven := Expected.even_of_turn he
      rw [InTurn, Formula.outOfTurn, if_pos heven, if_pos heven, isNumber_iff]
      refine ⟨fun hliteral => ?_, rfl⟩
      rw [Literal.read?, if_pos hliteral] at hread
      cases hread
  | operator =>
      obtain ⟨hread, rfl⟩ := h
      have hodd := Expected.odd_of_turn he
      rw [InTurn, Formula.outOfTurn, if_neg hodd, if_neg hodd,
        Operator.mem_symbols_iff]
      refine ⟨?_, rfl⟩
      rintro ⟨op, rfl⟩
      rw [Operator.ofSymbol?_symbol] at hread
      cases hread

/-- The tokens are in turn, if the first one stands at the place. -/
def InTurnFrom (k : Nat) (tokens : List String) : Prop :=
  ∀ i token, tokens[i]? = some token → InTurn (k + i) token

theorem InTurnFrom.cons {k : Nat} {token : String} {tokens : List String}
    (htoken : InTurn k token) (h : InTurnFrom (k + 1) tokens) :
    InTurnFrom k (token :: tokens) := by
  intro i t hi
  cases i with
  | zero => exact Option.some.inj hi ▸ htoken
  | succ i =>
      rw [show k + (i + 1) = k + 1 + i by omega]
      exact h i t hi

/-- Tokens that are each what is expected are in turn. -/
theorem Expected.Takes.inTurnFrom {e last : Expected} {tokens : List String}
    (h : Takes e tokens last) {k : Nat} (he : e = turn k) :
    InTurnFrom k tokens ∧ last = turn (k + tokens.length) := by
  induction h generalizing k with
  | done e => exact ⟨nofun, he⟩
  | value v _ ih =>
      obtain ⟨hrest, hlast⟩ := ih (turn_succ he)
      refine ⟨.cons ?_ hrest, ?_⟩
      · rw [InTurn, if_pos (even_of_turn he)]
        exact v.isNumber
      · rw [hlast, List.length_cons, Nat.add_assoc, Nat.add_comm 1]
  | operator op _ ih =>
      obtain ⟨hrest, hlast⟩ := ih (turn_succ he)
      refine ⟨.cons ?_ hrest, ?_⟩
      · rw [InTurn, if_neg (odd_of_turn he), Operator.mem_symbols_iff]
        exact ⟨op, rfl⟩
      · rw [hlast, List.length_cons, Nat.add_assoc, Nat.add_comm 1]

-- ============================================================ all tokens

/-- What tokens come to, as far as they alone tell. -/
inductive Verdict (tokens : List String) : Option Error → Prop
  | misplaced (i : Nat) (token : String) (hi : tokens[i]? = some token)
      (hbad : ¬ InTurn i token) (hbefore : ∀ j < i, ¬ Misplaced tokens j) :
      Verdict tokens (some (outOfTurn i token))
  | empty (hempty : tokens = []) : Verdict tokens (some (.empty 0))
  | trailing (last : String) (hlast : tokens.getLast? = some last)
      (hall : ∀ i, ¬ Misplaced tokens i) (heven : tokens.length % 2 = 0) :
      Verdict tokens (some (.trailing last (tokens.length - 1)))
  | complete (hall : ∀ i, ¬ Misplaced tokens i)
      (hodd : tokens.length % 2 = 1) : Verdict tokens none

theorem outOfTurn_isSyntactic (i : Nat) (token : String) :
    (outOfTurn i token).isSyntactic = true := by
  unfold outOfTurn
  split
  · rfl
  · rfl

theorem Verdict.isSyntactic {tokens : List String} {e : Error}
    (h : Verdict tokens (some e)) : e.isSyntactic = true := by
  cases h with
  | misplaced i token => exact outOfTurn_isSyntactic i token
  | empty => rfl
  | trailing => rfl

section
variable {tokens : List String} {verdict : Option Error}

/-- Where a token is out of turn, the first such token decides. -/
theorem Verdict.eq_outOfTurn (h : Verdict tokens verdict) {i : Nat}
    {token : String} (hi : tokens[i]? = some token) (hbad : Misplaced tokens i)
    (hbefore : ∀ j < i, ¬ Misplaced tokens j) :
    verdict = some (outOfTurn i token) := by
  cases h with
  | misplaced j t hj hmis hfirst =>
      obtain hlt | rfl | hlt := Nat.lt_trichotomy i j
      · exact absurd hbad (hfirst i hlt)
      · rw [Option.some.inj (hi.symm.trans hj)]
      · exact absurd ⟨t, hj, hmis⟩ (hbefore j hlt)
  | empty hempty =>
      rw [hempty] at hi
      cases hi
  | trailing last _ hall _ => exact absurd hbad (hall i)
  | complete hall _ => exact absurd hbad (hall i)

theorem Verdict.eq_of_even (h : Verdict tokens verdict)
    (hall : ∀ i, ¬ Misplaced tokens i) (heven : tokens.length % 2 = 0) :
    (tokens = [] ∧ verdict = some (.empty 0))
      ∨ ∃ last, tokens.getLast? = some last
        ∧ verdict = some (.trailing last (tokens.length - 1)) := by
  cases h with
  | misplaced i t hi hmis _ => exact absurd ⟨t, hi, hmis⟩ (hall i)
  | empty hempty => exact Or.inl ⟨hempty, rfl⟩
  | trailing last hlast _ _ => exact Or.inr ⟨last, hlast, rfl⟩
  | complete _ hodd => omega

theorem Verdict.eq_none_of_odd (h : Verdict tokens verdict)
    (hall : ∀ i, ¬ Misplaced tokens i) (hodd : tokens.length % 2 = 1) :
    verdict = none := by
  cases h with
  | misplaced i t hi hmis _ => exact absurd ⟨t, hi, hmis⟩ (hall i)
  | empty hempty =>
      rw [hempty] at hodd
      cases hodd
  | trailing _ _ _ heven => omega
  | complete _ _ => rfl

end

namespace Builder

variable {g g' : Graph} {b b' : Builder} {p : Plan}

theorem feed_append (xs ys : List String) :
    (b.feed g (xs ++ ys)).2
      = (b.feed g xs).2 >>= fun (g', b') => (b'.feed g' ys).2 := by
  induction xs generalizing g b with
  | nil => rfl
  | cons token xs ih =>
      rw [List.cons_append]
      cases hadd : b.add g token with
      | error e =>
          rw [feed_cons_error _ hadd, feed_cons_error _ hadd]
          rfl
      | ok r =>
          obtain ⟨g₁, b₁, splice⟩ := r
          rw [feed_cons_ok _ hadd, feed_cons_ok _ hadd]
          exact ih

/-- A builder that expects a value after some tokens names the last of
them if it is asked for the formula. -/
theorem build_after_last {tokens : List String} {last : String}
    (hfeed : (({} : Builder).feed g (tokens ++ [last])).2 = .ok (g', b'))
    (he : b'.expected = .value) :
    b'.build g' = .error (.trailing last (b'.position - 1)) := by
  rw [feed_append] at hfeed
  cases (grown_new g).feed_cases rfl tokens with
  | refused _ _ _ _ _ _ _ _ hbefore =>
      rw [hbefore] at hfeed
      cases hfeed
  | taken g₁ b₁ p₁ hbefore hgrown hf _ _ =>
      rw [hbefore] at hfeed
      change (b₁.feed g₁ [last]).2 = _ at hfeed
      cases hgrown.add_cases last with
      | closed hclosed _ =>
          rw [hf] at hclosed
          cases hclosed
      | notNumber _ _ _ hadd | notOperator _ _ _ hadd =>
          rw [feed_cons_error _ hadd] at hfeed
          cases hfeed
      | value x g₂ b₂ _ he₁ _ hadd hadv =>
          rw [feed_cons_ok _ hadd] at hfeed
          cases hfeed
          rw [hadv.expected, he₁] at he
          cases he
      | operator op g₂ b₂ _ he₁ hread hadd hadv =>
          rw [feed_cons_ok _ hadd] at hfeed
          cases hfeed
          have hspine : (p₁.splice g₁.size op).spine.getLast?
              = some (g₁.size, op) := by
            rw [Plan.spine_splice, List.getLast?_concat]
          cases hadv.grown.build_cases with
          | closed hclosed _ =>
              rw [hadv.finalized, hf] at hclosed
              cases hclosed
          | empty _ _ hp _ =>
              rw [hp] at hspine
              cases hspine
          | trailing q op' _ _ hlast hbuild =>
              rw [hspine] at hlast
              cases hlast
              rw [hbuild, Operator.ofSymbol?_eq_some_iff.1 hread]
          | built _ hop _ =>
              rw [he] at hop
              cases hop

/-- A builder that expects an operator hands out the formula. -/
theorem Grown.build_complete (h : Grown g b p) (hf : b.finalized = false)
    (he : b.expected = .operator) :
    ∃ b' root, b.build g = .ok (b', some root) := by
  obtain ⟨root, htop⟩ := Option.ne_none_iff_exists'.1
    (h.isComplete he).top_ne_none
  cases h.build_cases with
  | closed hclosed _ =>
      rw [hf] at hclosed
      cases hclosed
  | empty _ hvalue _ _ | trailing _ _ _ hvalue _ _ =>
      rw [he] at hvalue
      cases hvalue
  | built _ _ hbuild =>
      rw [hbuild, htop]
      exact ⟨_, root, rfl⟩

/-- The first token that a new builder refuses is the first out of turn. -/
theorem verdict_of_refused {before after : List String} {token : String}
    {e : Expected} {error : Error} (htakes : Expected.value.Takes before e)
    (hrefuses : Refuses e token before.length error) :
    Verdict (before ++ token :: after) (some error) := by
  obtain ⟨hbefore, he⟩ := htakes.inTurnFrom (k := 0) rfl
  simp only [InTurnFrom, Nat.zero_add] at hbefore he
  obtain ⟨hbad, herror⟩ := hrefuses.outOfTurn he
  rw [herror]
  refine .misplaced before.length token (by simp) hbad ?_
  rintro j hj ⟨t, ht, hmis⟩
  rw [List.getElem?_append_left hj] at ht
  exact hmis (hbefore j t ht)

/-- Constructing a formula comes to what the tokens tell. -/
theorem construct_verdict (g : Graph) (tokens : List String) :
    (∃ g' b' root, (construct g tokens).2 = .ok (g', b', some root)
        ∧ Verdict tokens none)
      ∨ ∃ e, (construct g tokens).2 = .error e ∧ Verdict tokens (some e) := by
  cases (grown_new g).feed_cases rfl tokens with
  | refused before token after e error hsplit htakes hrefuses hfeed =>
      refine Or.inr ⟨error, ?_, ?_⟩
      · show (({} : Builder).feed g tokens).2 >>= _ = _
        rw [hfeed]
        rfl
      · rw [hsplit]
        exact verdict_of_refused htakes (by simpa using hrefuses)
  | taken g' b' p' hfeed hgrown hf htakes hposition =>
      obtain ⟨hturn, he⟩ := htakes.inTurnFrom (k := 0) rfl
      simp only [InTurnFrom, Nat.zero_add] at hturn he
      have hall : ∀ i, ¬ Misplaced tokens i := by
        rintro i ⟨t, ht, hmis⟩
        exact hmis (hturn i t ht)
      rw [construct_of_feed hfeed]
      cases hexp : b'.expected with
      | operator =>
          rw [hexp] at he
          have hodd := Expected.odd_of_turn he
          obtain ⟨b₁, root, hbuild⟩ := hgrown.build_complete hf hexp
          rw [hbuild]
          exact Or.inl ⟨g', b₁, root, rfl, .complete hall (by omega)⟩
      | value =>
          rw [hexp] at he
          right
          rcases List.eq_nil_or_concat tokens with rfl | ⟨before, last, rfl⟩
          · cases hfeed
            exact ⟨.empty 0, rfl, .empty rfl⟩
          · rw [List.concat_eq_append] at hfeed hposition hall he ⊢
            have hpos : b'.position - 1 = (before ++ [last]).length - 1 := by
              rw [hposition]
              exact congrArg (· - 1) (Nat.zero_add _)
            rw [build_after_last hfeed hexp, hpos]
            refine ⟨_, rfl, .trailing last List.getLast?_concat hall ?_⟩
            exact Expected.even_of_turn he

end Builder

-- ============================================================== on texts

/-- An error that is about the token and the place. -/
def Error.IsAbout (e : Error) (token : Option String) (position : Nat) : Prop :=
  e.token? = token ∧ e.position? = some position

theorem outOfTurn_isAbout (i : Nat) (token : String) :
    (outOfTurn i token).IsAbout (some token) i := by
  unfold outOfTurn
  split
  · exact ⟨rfl, rfl⟩
  · exact ⟨rfl, rfl⟩

/-- A text is read, or refused with the error. -/
def Meets (outcome : Except Error (Graph × Option Ref)) : Option Error → Prop
  | none => ∃ g' root, outcome = .ok (g', some root)
  | some e => outcome = .error e

/-- Reading a text comes to what its tokens tell, validated or not. -/
theorem parse_verdict (log : Log) (g : Graph) (text : String)
    (validate : Bool) :
    ∃ verdict, Verdict (Token.tokenize text) verdict
      ∧ Meets (parse log g text (if validate then .validate else .skip)).2
        verdict := by
  have hsame : (parse log g text (if validate then .validate else .skip)).2
      = (parse log g text .skip).2 := by
    cases validate with
    | false => rfl
    | true => exact parse_validate log g text
  rw [hsame, parse_skip]
  rcases Builder.construct_verdict g (Token.tokenize text) with
    ⟨g', b', root, hok, hverdict⟩ | ⟨e, herror, hverdict⟩
  · rw [hok]
    exact ⟨none, hverdict, g', root, rfl⟩
  · rw [herror]
    exact ⟨some e, hverdict, rfl⟩

/-- A text is refused for its first token that is out of turn; if there is
none, because it ends after an operator or before it begins; and otherwise
it is read.  There is no other error, validated or not. -/
theorem parse_first_defect (log : Log) (g : Graph) (text : String)
    (validate : Bool) :
    let tokens := Token.tokenize text
    let outcome := (parse log g text (if validate then .validate else .skip)).2
    (∀ i token, tokens[i]? = some token → Misplaced tokens i →
        (∀ j < i, ¬ Misplaced tokens j) →
        ∃ e, outcome = .error e
          ∧ (i % 2 = 0 → e = .notNumber token i)
          ∧ (i % 2 = 1 → e = .notOperator token i)
          ∧ e.IsAbout (some token) i)
      ∧ ((∀ i, ¬ Misplaced tokens i) → tokens.length % 2 = 0 →
        ∃ e, outcome = .error e
          ∧ (tokens = [] → e = .empty 0 ∧ e.IsAbout none 0)
          ∧ ∀ last, tokens.getLast? = some last →
            e = .trailing last (tokens.length - 1)
              ∧ e.IsAbout (some last) (tokens.length - 1))
      ∧ ((∀ i, ¬ Misplaced tokens i) → tokens.length % 2 = 1 →
        ∃ g' root, outcome = .ok (g', some root))
      ∧ ∀ e, outcome = .error e → e.isSyntactic = true := by
  intro tokens outcome
  obtain ⟨verdict, hverdict, hmeets⟩ :
      ∃ verdict, Verdict tokens verdict ∧ Meets outcome verdict :=
    parse_verdict log g text validate
  refine ⟨?_, ?_, ?_, ?_⟩
  · intro i token hi hbad hbefore
    rw [hverdict.eq_outOfTurn hi hbad hbefore] at hmeets
    refine ⟨_, hmeets, ?_, ?_, outOfTurn_isAbout i token⟩
    · exact fun heven => if_pos heven
    · exact fun hodd => if_neg (by omega)
  · intro hall heven
    rcases hverdict.eq_of_even hall heven with
      ⟨hempty, rfl⟩ | ⟨last, hlast, rfl⟩
    · refine ⟨.empty 0, hmeets, fun _ => ⟨rfl, rfl, rfl⟩, ?_⟩
      intro last hlast
      rw [hempty] at hlast
      cases hlast
    · refine ⟨_, hmeets, ?_, ?_⟩
      · intro hempty
        rw [hempty] at hlast
        cases hlast
      · intro last' hlast'
        cases hlast.symm.trans hlast'
        exact ⟨rfl, rfl, rfl⟩
  · intro hall hodd
    rw [hverdict.eq_none_of_odd hall hodd] at hmeets
    exact hmeets
  · intro e he
    cases verdict with
    | none =>
        obtain ⟨g', root, hok⟩ := hmeets
        cases he.symm.trans hok
    | some e' =>
        cases he.symm.trans hmeets
        exact hverdict.isSyntactic

/-- Two tokens are out of turn, and the first is reported. -/
theorem parse_first_defect_mixed :
    let tokens := ["1", "+ x", "2..3"]
    Token.tokenize "1+ x 2..3" = tokens ∧ Misplaced tokens 1
      ∧ Misplaced tokens 2
      ∧ (parse {} Graph.empty "1+ x 2..3" .validate).2
        = .error (.notOperator "+ x" 1) := by
  intro tokens
  have htokens : Token.tokenize "1+ x 2..3" = tokens := by decide +kernel
  have hsign : Misplaced tokens 1 := ⟨"+ x", rfl, by simp [InTurn]⟩
  have hnumber : Misplaced tokens 2 :=
    ⟨"2..3", rfl, by rw [InTurn, if_pos rfl, isNumber_iff]; decide +kernel⟩
  have hfirst : ∀ j < 1, ¬ Misplaced tokens j := by
    rintro j hj ⟨token, htoken, hmis⟩
    obtain rfl : j = 0 := by omega
    cases htoken
    refine hmis ?_
    rw [InTurn, if_pos rfl, isNumber_iff]
    decide +kernel
  obtain ⟨hbad, -⟩ := parse_first_defect {} Graph.empty "1+ x 2..3" true
  rw [htokens] at hbad
  obtain ⟨e, he, -, hodd, -⟩ := hbad 1 "+ x" rfl hsign hfirst
  rw [hodd rfl] at he
  exact ⟨htokens, hsign, hnumber, he⟩

end Formula
