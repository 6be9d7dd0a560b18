/-
Two texts with an operator between them.  Whether the whole can be read
is a matter of its two parts (`parse_joined`), although the scan knows of
no parts: no character of a number or a blank is an operator, so that the
grammar can be cut at the operator (`Written.split`), and a number on
either side keeps the operator a token of its own (`Spaced.join`).

What the whole comes to is told here for + and -.  The tree of the first
text becomes one operand, and the other is the first term of the second
text; everything else of the second tree stays where it is.  That is what
one step of growth leaves alone (`joinFirst_extend`): a value that is
spliced in at the right edge never sees what is done at the first term.
-/
import Formula.Proofs.Grammar
import Formula.Proofs.Parse
import Formula.Proofs.Token.Layout

namespace Formula

open Token

-- ============================================================ on tokens

/-- A word goes between two texts if numeric tokens, or none, are next
to it. -/
theorem Token.Spaced.join {a t b : List Char} {ts us : List (List Char)}
    (ha : Spaced a ts) (hlast : ∀ s ∈ ts.getLast?, Numeric s) (ht : Word t)
    (hb : Spaced b us) (hnext : ∀ s ∈ us.head?, Numeric s) :
    Spaced (a ++ t ++ b) (ts ++ t :: us) := by
  induction ha with
  | blank hw => exact .word hw ht hnext hb
  | @numeric w s rest ts hw hs hstop _ ih =>
      have hlater := ih fun u hu => hlast u (by
        rw [List.getLast?_cons, Option.mem_def.1 hu]
        rfl)
      have hstop' : Stops (rest ++ (t ++ b)) := by
        cases rest with
        | nil => exact ht.stops
        | cons c rest => exact hstop
      rw [List.append_assoc] at hlater
      rw [List.append_assoc, List.append_assoc]
      exact .numeric hw hs hstop' hlater
  | @word w s rest ts hw hs hnumeric _ ih =>
      cases ts with
      | nil => exact absurd (hlast s rfl) hs.not_numeric
      | cons u ts =>
          have hlater := ih fun v hv => hlast v (by
            rw [List.getLast?_cons_cons]
            exact hv)
          rw [List.append_assoc] at hlater
          rw [List.append_assoc, List.append_assoc]
          exact .word hw hs hnumeric hlater

theorem alternate_append (first : Numeral) (op : Operator) (n : Numeral)
    (ps qs : List (Operator × Numeral)) :
    alternate first (ps ++ (op, n) :: qs)
      = alternate first ps ++ op.symbol :: alternate n qs := by
  rw [alternate, alternate, continuation, List.flatMap_append]
  rfl

/-- The tokens of a formula end with a number. -/
theorem numeric_last_alternate (first : Numeral)
    (rest : List (Operator × Numeral)) :
    ∀ s ∈ ((alternate first rest).map String.toList).getLast?, Numeric s := by
  rcases List.eq_nil_or_concat rest with rfl | ⟨ps, ⟨op, n⟩, rfl⟩
  · intro s hs
    rw [← Option.some.inj hs]
    exact first.numeric
  · intro s hs
    rw [List.concat_eq_append, alternate_append, List.map_append, List.map_cons,
      List.getLast?_append_of_ne_nil _ (List.cons_ne_nil _ _)] at hs
    rw [← Option.some.inj hs]
    exact n.numeric

/-- The tokens of two formulas and the operator between them. -/
theorem tokenize_joined {a b : String} (op : Operator) {first n : Numeral}
    {ps qs : List (Operator × Numeral)} (ha : tokenize a = alternate first ps)
    (hb : tokenize b = alternate n qs) :
    tokenize (a ++ op.symbol ++ b) = alternate first (ps ++ (op, n) :: qs) := by
  obtain ⟨c, hc, hop⟩ := op.exists_sign
  rw [tokenize_eq_iff] at ha hb ⊢
  rw [alternate_append, List.map_append, List.map_cons, hop,
    String.toList_append, String.toList_append, hop]
  refine ha.join (numeric_last_alternate first ps) hc.word hb ?_
  intro s hs
  rw [← Option.some.inj hs]
  exact n.numeric

-- =========================================================== on grammars

/-- A character that is not in front is found behind. -/
theorem exists_append_of_notMem {u rest a b : List Char} {c : Char}
    (hc : c ∉ u) (h : u ++ rest = a ++ c :: b) :
    ∃ a', a = u ++ a' ∧ rest = a' ++ c :: b := by
  rcases List.append_eq_append_iff.1 h with ⟨a', ha, hrest⟩ | ⟨u', hu, hcb⟩
  · exact ⟨a', ha, hrest⟩
  · cases u' with
    | nil =>
        rw [List.append_nil] at hu
        exact ⟨[], by rw [hu, List.append_nil], hcb.symm⟩
    | cons d u' =>
        obtain ⟨rfl, -⟩ := List.cons.inj hcb
        exact absurd (hu ▸ List.mem_append_right a (List.mem_cons_self ..)) hc

/-- No operator is part of a number or of the blanks around it. -/
theorem IsSign.notMem {c : Char} (hc : IsSign c) {w v w' : List Char}
    (hw : Blank w) (hv : IsNumber v) (hw' : Blank w') : c ∉ w ++ v ++ w' := by
  have hother := hc.word.other c (List.mem_singleton_self c)
  have hblank := hc.word.head c rfl
  intro hmem
  rcases List.mem_append.1 hmem with hmem | hmem
  · rcases List.mem_append.1 hmem with hmem | hmem
    · exact Bool.false_ne_true (hblank.symm.trans (hw c hmem))
    · exact Bool.false_ne_true (hother.symm.trans (hv.numeric.2 c hmem))
  · exact Bool.false_ne_true (hblank.symm.trans (hw' c hmem))

theorem WrittenRest.split {rest a b : List Char} {c : Char}
    (h : WrittenRest rest) (hc : IsSign c) (hrest : rest = a ++ c :: b) :
    WrittenRest a ∧ Written b := by
  induction h generalizing a with
  | nil => exact absurd hrest.symm (by simp)
  | @cons d w v w' rest hd hw hv hw' hlater ih =>
      cases a with
      | nil =>
          obtain ⟨-, rfl⟩ := List.cons.inj hrest
          exact ⟨.nil, w, v, w', rest, hw, hv, hw', hlater, rfl⟩
      | cons e a =>
          obtain ⟨rfl, htail⟩ := List.cons.inj hrest
          rw [← List.append_assoc] at htail
          obtain ⟨a', rfl, hrest'⟩ :=
            exists_append_of_notMem (hc.notMem hw hv hw') htail
          obtain ⟨ha', hb⟩ := ih hrest'
          refine ⟨?_, hb⟩
          rw [List.append_assoc]
          exact .cons hd hw hv hw' ha'

/-- The language can be cut at any operator. -/
theorem Written.split {a b : List Char} {c : Char}
    (h : Written (a ++ c :: b)) (hc : IsSign c) : Written a ∧ Written b := by
  obtain ⟨w, v, w', rest, hw, hv, hw', hlater, htext⟩ := h
  rw [← List.append_assoc] at htext
  obtain ⟨a', rfl, hrest⟩ :=
    exists_append_of_notMem (hc.notMem hw hv hw') htext.symm
  obtain ⟨ha', hb⟩ := hlater.split hc hrest
  refine ⟨⟨w, v, w', a', hw, hv, hw', ha', ?_⟩, hb⟩
  rw [List.append_assoc]

-- ============================================================= on trees

namespace Tree

/-- The first term: down along left operands as long as there is a + or a
- on top. -/
def firstTerm : Tree → Tree
  | .leaf x => .leaf x
  | .node op left right =>
      if op.isAdditive then left.firstTerm else .node op left right

/-- The tree with another one in the place of its first term. -/
def withFirstTerm : Tree → Tree → Tree
  | .leaf _, u => u
  | .node op left right, u =>
      if op.isAdditive then .node op (left.withFirstTerm u) right else u

/-- The tree with its first term joined to another tree, which comes
before it. -/
def joinFirst (t : Tree) (op : Operator) (s : Tree) : Tree :=
  t.withFirstTerm (.node op s t.firstTerm)

variable {op o : Operator}

theorem joinFirst_term (op : Operator) (s : Tree) {t : Tree} (ht : t.IsTerm) :
    t.joinFirst op s = .node op s t := by
  cases t with
  | leaf x => rfl
  | node o left right =>
      have ho : o.isAdditive = false := ht
      simp only [joinFirst, firstTerm, withFirstTerm, ho, Bool.false_eq_true,
        if_false]

theorem joinFirst_sum (op : Operator) (s left right : Tree)
    (ho : o.isAdditive = true) :
    (Tree.node o left right).joinFirst op s
      = .node o (left.joinFirst op s) right := by
  simp only [joinFirst, firstTerm, withFirstTerm, ho, if_true]

/-- Growth at the right edge leaves the first term alone. -/
theorem joinFirst_extend (hop : op.isAdditive = true) (s t : Tree) (x : Float) :
    (t.joinFirst op s).extend o x = (t.extend o x).joinFirst op s := by
  cases ho : o.isAdditive with
  | true => rw [extend_additive ho, extend_additive ho, joinFirst_sum _ _ _ _ ho]
  | false =>
      by_cases ht : t.IsTerm
      · rw [joinFirst_term op s ht, extend_sum ho hop, extend_term ho x ht,
          joinFirst_term op s (t := .node o t (.leaf x)) ho]
      · cases t with
        | leaf y => exact absurd trivial ht
        | node p left right =>
            have hp : p.isAdditive = true := by simpa [IsTerm] using ht
            rw [joinFirst_sum _ _ _ _ hp, extend_sum ho hp, extend_sum ho hp,
              joinFirst_sum _ _ _ _ hp]

theorem joinFirst_foldl (hop : op.isAdditive = true) (s t : Tree)
    (rest : List (Operator × Float)) :
    rest.foldl (fun t (o, x) => t.extend o x) (t.joinFirst op s)
      = (rest.foldl (fun t (o, x) => t.extend o x) t).joinFirst op s := by
  induction rest generalizing t with
  | nil => rfl
  | cons pair rest ih =>
      rw [List.foldl_cons, List.foldl_cons, ← ih]
      exact congrArg (rest.foldl _) (joinFirst_extend hop s t pair.2)

/-- An additive operator joins the tree before it to the first term after
it. -/
theorem byConvention_append (hop : op.isAdditive = true) (x y : Float)
    (ps qs : List (Operator × Float)) :
    byConvention x (ps ++ (op, y) :: qs)
      = (byConvention y qs).joinFirst op (byConvention x ps) := by
  rw [← foldl_extend_leaf, ← foldl_extend_leaf, ← foldl_extend_leaf,
    List.foldl_append, List.foldl_cons]
  show qs.foldl _ (Tree.extend op y _) = _
  rw [extend_additive hop, ← joinFirst_foldl hop,
    joinFirst_term (t := .leaf y) op _ trivial]

theorem ofNumerals_append (hop : op.isAdditive = true) (first n : Numeral)
    (ps qs : List (Operator × Numeral)) :
    ofNumerals first (ps ++ (op, n) :: qs)
      = (ofNumerals n qs).joinFirst op (ofNumerals first ps) := by
  rw [ofNumerals, List.map_append, List.map_cons]
  exact byConvention_append hop first.value n.value _ _

end Tree

-- ============================================================= on texts

/-- A text that is read is in the language. -/
theorem written_of_parse {log : Log} {g g' : Graph} {text : String}
    {root : Option Ref} (h : (parse log g text .skip).2 = .ok (g', root)) :
    Written text.toList := by
  obtain ⟨first, rest, htokens, -⟩ := exists_holds_of_parse h
  exact (written_iff text).2 ⟨first, rest, htokens⟩

/-- Two texts with an operator between them are read just when each of
them is.  If the operator is additive, the tree of the whole is that of
the second text with its first term joined to the tree of the first. -/
theorem parse_joined (log log₁ log₂ : Log) (g g₁ g₂ : Graph) (a b : String)
    (op : Operator) :
    ((∃ g' root, (parse log g (a ++ op.symbol ++ b) .skip).2
          = .ok (g', some root))
        ↔ (∃ g' root, (parse log₁ g₁ a .skip).2 = .ok (g', some root))
          ∧ ∃ g' root, (parse log₂ g₂ b .skip).2 = .ok (g', some root))
      ∧ (op.isAdditive = true →
        ∀ ga ra gb rb, (parse log₁ g₁ a .skip).2 = .ok (ga, ra) →
          (parse log₂ g₂ b .skip).2 = .ok (gb, rb) →
          ∃ s t g' root, (∀ u, ga.Holds ra u ↔ u = s)
            ∧ (∀ u, gb.Holds rb u ↔ u = t)
            ∧ (parse log g (a ++ op.symbol ++ b) .skip).2
              = .ok (g', some root)
            ∧ ∀ u, g'.Holds (some root) u
              ↔ u = t.withFirstTerm (.node op s t.firstTerm)) := by
  refine ⟨⟨?_, ?_⟩, ?_⟩
  · rintro ⟨g', root, hparse⟩
    obtain ⟨c, hc, hop⟩ := op.exists_sign
    have hwritten := written_of_parse hparse
    rw [String.toList_append, String.toList_append, hop, List.append_assoc]
      at hwritten
    obtain ⟨ha, hb⟩ := hwritten.split hc
    obtain ⟨first, ps, ha⟩ := (written_iff a).1 ha
    obtain ⟨n, qs, hb⟩ := (written_iff b).1 hb
    obtain ⟨ga, ra, hparse₁, -⟩ := exists_parse_of_tokenize log₁ g₁ ha
    obtain ⟨gb, rb, hparse₂, -⟩ := exists_parse_of_tokenize log₂ g₂ hb
    exact ⟨⟨ga, ra, hparse₁⟩, gb, rb, hparse₂⟩
  · rintro ⟨⟨ga, ra, hparse₁⟩, gb, rb, hparse₂⟩
    obtain ⟨first, ps, ha, -⟩ := exists_holds_of_parse hparse₁
    obtain ⟨n, qs, hb, -⟩ := exists_holds_of_parse hparse₂
    obtain ⟨g', root, hparse, -⟩ :=
      exists_parse_of_tokenize log g (tokenize_joined op ha hb)
    exact ⟨g', root, hparse⟩
  · intro hop ga ra gb rb hparse₁ hparse₂
    obtain ⟨first, ps, ha, hholds₁⟩ := exists_holds_of_parse hparse₁
    obtain ⟨n, qs, hb, hholds₂⟩ := exists_holds_of_parse hparse₂
    obtain ⟨g', root, hparse, hholds⟩ :=
      exists_parse_of_tokenize log g (tokenize_joined op ha hb)
    rw [Tree.ofNumerals_append hop] at hholds
    exact ⟨_, _, g', root, fun u => hholds₁.iff_eq, fun u => hholds₂.iff_eq,
      hparse, fun u => hholds.iff_eq⟩

/-- The product meets the quotient, and the 6 stays where it was. -/
theorem parse_joined_difference :
    let x (digits : String) := Tree.leaf (Literal.value digits.toList)
    let s := Tree.node .mul (x "2") (x "3")
    let quotient := Tree.node .div (x "4") (x "5")
    let t := Tree.node .sub quotient (x "6")
    ∃ ga ra gb rb g' root,
      (parse {} Graph.empty "2 * 3" .skip).2 = .ok (ga, some ra)
        ∧ ga.Holds (some ra) s
        ∧ (parse {} ga "4/5-6" .skip).2 = .ok (gb, some rb)
        ∧ gb.Holds (some rb) t
        ∧ (parse {} gb ("2 * 3" ++ "-" ++ "4/5-6") .skip).2
          = .ok (g', some root)
        ∧ g'.Holds (some root)
          (.node .sub (.node .sub s quotient) (x "6")) := by
  intro x s quotient t
  let two : Numeral := ⟨"2", by decide +kernel⟩
  let four : Numeral := ⟨"4", by decide +kernel⟩
  let ps : List (Operator × Numeral) := [(.mul, ⟨"3", by decide +kernel⟩)]
  let qs : List (Operator × Numeral) :=
    [(.div, ⟨"5", by decide +kernel⟩), (.sub, ⟨"6", by decide +kernel⟩)]
  have ha : tokenize "2 * 3" = alternate two ps := by decide +kernel
  have hb : tokenize "4/5-6" = alternate four qs := by decide +kernel
  obtain ⟨ga, ra, hparse₁, hs⟩ := exists_parse_of_tokenize {} Graph.empty ha
  obtain ⟨gb, rb, hparse₂, ht⟩ := exists_parse_of_tokenize {} ga hb
  obtain ⟨s', t', g', root, hs', ht', hparse, hjoined⟩ :=
    (parse_joined {} {} {} gb Graph.empty ga "2 * 3" "4/5-6" .sub).2 rfl
      ga (some ra) gb (some rb) hparse₁ hparse₂
  obtain rfl : s = s' := (hs' _).1 hs
  obtain rfl : t = t' := (ht' _).1 ht
  exact ⟨ga, ra, gb, rb, g', root, hparse₁, hs, hparse₂, ht, hparse,
    (hjoined _).2 rfl⟩

end Formula
