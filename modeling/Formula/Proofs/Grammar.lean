/-
The language of formulas, character by character:

    W NUM W (OP W NUM W)*

with W any blanks, NUM digits with one point at most, and OP one of the
four symbols.  Nothing that reads a text knows this grammar: the scan
cuts at changes of run, the builder checks that values and operators
take turns.

A text is in the language just when its tokens are those of a formula
(`written_iff`).  Both sides are a spacing of the text: the blanks of the
grammar are the blanks around the tokens, and a number ends where a
blank or an operator comes.  That the builder takes such tokens, and for
what reasons it refuses others, is known already (`construct_alternate`,
`construct_cases`); `parse_ok_iff_written` puts the two together.
-/
import Formula.Proofs.Precedence
import Formula.Proofs.Token.Spacing

namespace Formula

open Token

-- =========================================================== the grammar

/-- NUM: digits, at least one, and a point, at most one. -/
def IsNumber (v : List Char) : Prop :=
  (∀ c ∈ v, c.isDigit = true ∨ c = '.') ∧ (∃ c ∈ v, c.isDigit = true)
    ∧ v.count '.' ≤ 1

/-- OP. -/
def IsSign (c : Char) : Prop := c ∈ ['+', '-', '*', '/']

/-- (OP W NUM W)*. -/
inductive WrittenRest : List Char → Prop
  | nil : WrittenRest []
  | cons {c : Char} {w v w' rest : List Char} (hc : IsSign c) (hw : Blank w)
      (hv : IsNumber v) (hw' : Blank w') (hrest : WrittenRest rest) :
      WrittenRest (c :: (w ++ v ++ (w' ++ rest)))

/-- W NUM W (OP W NUM W)*. -/
def Written (text : List Char) : Prop :=
  ∃ w v w' rest, Blank w ∧ IsNumber v ∧ Blank w' ∧ WrittenRest rest
    ∧ text = w ++ v ++ (w' ++ rest)

-- ============================================================ its tokens

theorem isNumber_iff {v : List Char} :
    IsNumber v ↔ Literal.isLiteral v = true := by
  simp [IsNumber, Literal.isLiteral, isNumeral, and_assoc]

theorem IsNumber.exists_numeral {v : List Char} (h : IsNumber v) :
    ∃ n : Numeral, n.token.toList = v := by
  refine ⟨⟨String.ofList v, ?_⟩, String.toList_ofList⟩
  rw [String.toList_ofList]
  exact isNumber_iff.1 h

theorem IsNumber.numeric {v : List Char} (h : IsNumber v) : Numeric v := by
  obtain ⟨hall, ⟨d, hd, -⟩, -⟩ := h
  refine ⟨List.ne_nil_of_mem hd, fun c hc => ?_⟩
  simpa [isNumeral] using hall c hc

theorem Numeral.isNumber (n : Numeral) : IsNumber n.token.toList :=
  isNumber_iff.2 n.literal

theorem Numeral.numeric (n : Numeral) : Numeric n.token.toList :=
  n.isNumber.numeric

theorem IsSign.exists_operator {c : Char} (h : IsSign c) :
    ∃ op : Operator, op.symbol.toList = [c] := by
  simp only [IsSign, List.mem_cons, List.not_mem_nil, or_false] at h
  rcases h with rfl | rfl | rfl | rfl
  · exact ⟨.add, rfl⟩
  · exact ⟨.sub, rfl⟩
  · exact ⟨.mul, rfl⟩
  · exact ⟨.div, rfl⟩

theorem Operator.exists_sign (op : Operator) :
    ∃ c, IsSign c ∧ op.symbol.toList = [c] := by
  cases op with
  | add => exact ⟨'+', by simp [IsSign], rfl⟩
  | sub => exact ⟨'-', by simp [IsSign], rfl⟩
  | mul => exact ⟨'*', by simp [IsSign], rfl⟩
  | div => exact ⟨'/', by simp [IsSign], rfl⟩

theorem IsSign.word {c : Char} (h : IsSign c) : Word [c] := by
  have hc : isNumeral c = false ∧ Text.isBlank c = false := by
    simp only [IsSign, List.mem_cons, List.not_mem_nil, or_false] at h
    rcases h with rfl | rfl | rfl | rfl
    · decide
    · decide
    · decide
    · decide
  exact word_singleton hc.1 hc.2

theorem WrittenRest.stops {rest : List Char} (h : WrittenRest rest) :
    Stops rest := by
  cases h with
  | nil => exact nofun
  | cons hc _ _ _ _ =>
      intro d hd
      rw [← Option.some.inj hd]
      exact hc.word.other _ (List.mem_singleton_self _)

-- ===================================================== from the grammar

/-- What the grammar writes is spaced by the tokens of a continuation. -/
theorem WrittenRest.spaced {rest : List Char} (h : WrittenRest rest) :
    ∃ pairs, Spaced rest ((continuation pairs).map String.toList) := by
  induction h with
  | nil => exact ⟨[], .blank blank_nil⟩
  | @cons c w v w' rest hc hw hv hw' hrest ih =>
      obtain ⟨pairs, hspaced⟩ := ih
      obtain ⟨op, hop⟩ := hc.exists_operator
      obtain ⟨n, hn⟩ := hv.exists_numeral
      refine ⟨(op, n) :: pairs, ?_⟩
      rw [continuation_cons, alternate, List.map_cons, List.map_cons, hop, hn]
      refine .word (t := [c]) blank_nil hc.word ?_
        (.numeric hw hv.numeric (stops_append hw'.other fun _ => hrest.stops)
          (hspaced.prepend hw'))
      intro t ht
      rw [← Option.some.inj ht]
      exact hv.numeric

-- ======================================================= to the grammar

/-- A text that is spaced by the tokens of a continuation is one, but for
blanks in front. -/
theorem writtenRest_of_spaced {text : List Char}
    (pairs : List (Operator × Numeral))
    (h : Spaced text ((continuation pairs).map String.toList)) :
    ∃ w rest, text = w ++ rest ∧ Blank w ∧ WrittenRest rest := by
  induction pairs generalizing text with
  | nil =>
      exact ⟨text, [], (List.append_nil text).symm, h.blank_of_nil, .nil⟩
  | cons pair pairs ih =>
      obtain ⟨op, n⟩ := pair
      obtain ⟨c, hc, hop⟩ := op.exists_sign
      rw [continuation_cons, alternate, List.map_cons, List.map_cons, hop] at h
      obtain ⟨w, text₁, rfl, hw, h₁⟩ := h.split
      obtain ⟨w₁, text₂, rfl, hw₁, h₂⟩ := h₁.split
      -- the blanks before the next operator are those after this number
      obtain ⟨w₂, rest, rfl, hw₂, hrest⟩ := ih h₂
      refine ⟨w, _, ?_, hw, .cons hc hw₁ n.isNumber hw₂ hrest⟩
      rw [List.append_assoc]
      rfl

/-- A text is in the language when its tokens are those of a formula. -/
theorem written_iff (text : String) :
    Written text.toList
      ↔ ∃ first pairs, tokenize text = alternate first pairs := by
  constructor
  · intro h
    obtain ⟨w, v, w', rest, hw, hv, hw', hrest, htext⟩ := h
    obtain ⟨pairs, hspaced⟩ := hrest.spaced
    obtain ⟨n, hn⟩ := hv.exists_numeral
    refine ⟨n, pairs, tokenize_eq_iff.2 ?_⟩
    rw [htext, alternate, List.map_cons, hn]
    exact .numeric hw hv.numeric (stops_append hw'.other fun _ => hrest.stops)
      (hspaced.prepend hw')
  · intro htokens
    obtain ⟨n, pairs, htokens⟩ := htokens
    have h := tokenize_eq_iff.1 htokens
    rw [alternate, List.map_cons] at h
    obtain ⟨w, text₁, htext, hw, h₁⟩ := h.split
    obtain ⟨w', rest, rfl, hw', hrest⟩ := writtenRest_of_spaced pairs h₁
    exact ⟨w, _, w', rest, hw, n.isNumber, hw', hrest, htext⟩

-- ============================================================== reading

/-- A text is read when it is in the language; any other is refused, and
for a syntactic reason. -/
theorem parse_ok_iff_written (log : Log) (g : Graph) (text : String) :
    ((∃ g' root, (parse log g text .skip).2 = .ok (g', some root))
        ↔ Written text.toList)
      ∧ (Written text.toList
        ∨ ∃ e, (parse log g text .skip).2 = .error e
          ∧ e.isSyntactic = true) := by
  have hread : Written text.toList →
      ∃ g' root, (parse log g text .skip).2 = .ok (g', some root) := by
    intro hwritten
    obtain ⟨first, pairs, htokens⟩ := (written_iff text).1 hwritten
    obtain ⟨g', b', root, hconstruct, -⟩ :=
      Builder.construct_alternate g first pairs
    refine ⟨g', root, ?_⟩
    rw [parse_skip, htokens, hconstruct]
    rfl
  rcases Builder.construct_cases g (tokenize text) with
    ⟨first, pairs, -, -, -, htokens, -⟩ | ⟨e, hconstruct, hsyntactic⟩
  · have hwritten := (written_iff text).2 ⟨first, pairs, htokens⟩
    exact ⟨⟨fun _ => hwritten, hread⟩, Or.inl hwritten⟩
  · have hrefused : (parse log g text .skip).2 = .error e := by
      rw [parse_skip, hconstruct]
      rfl
    refine ⟨⟨?_, hread⟩, Or.inr ⟨e, hrefused, hsyntactic⟩⟩
    intro hok
    obtain ⟨g', root, hok⟩ := hok
    rw [hrefused] at hok
    cases hok

end Formula
