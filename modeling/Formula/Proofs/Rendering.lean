/-
What a formula is shown as tells the formula.  It is shown with
parentheses around every operation, and numbers are written without
blanks and parentheses (`Decimal.glyphs_brief`), though not
without signs: a minus may belong to a number, to its power of ten or to
an operation.  Still a text can be taken apart in one way only.  A number
ends where a blank or a closing parenthesis comes, and what is not a
number begins with an opening one; so of two texts that begin alike, each
a formula's and then something that ends it, the formulas are alike and
the rests are the same (`Tree.looksLike_of_text_append`).

The statement is about texts with something behind them because that is
where the operands stand.  Numbers are told apart as far as their brief
forms differ.
-/
import Formula.Proofs.Decimal.Plain
import Formula.Proofs.Grammar
import Formula.Proofs.Graph.Unfolding

namespace Formula

-- ========================================================= how numbers look

namespace Decimal

open Token

/-- The characters that numbers are shown with. -/
def isGlyph (c : Char) : Bool :=
  c.isDigit || ['.', '+', '-', 'e', 'i', 'n', 'f', 'a'].contains c

/-- Characters of numbers only. -/
def Glyphs (w : List Char) : Prop := ∀ c ∈ w, isGlyph c = true

theorem Glyphs.append {v w : List Char} (hv : Glyphs v) (hw : Glyphs w) :
    Glyphs (v ++ w) :=
  List.forall_mem_append.2 ⟨hv, hw⟩

theorem glyphs_of_isDigit {w : List Char} (h : ∀ c ∈ w, c.isDigit = true) :
    Glyphs w := by
  intro c hc
  rw [isGlyph, h c hc, Bool.true_or]

theorem glyphs_of_isLiteral {w : List Char}
    (h : Literal.isLiteral w = true) : Glyphs w := by
  intro c hc
  simp only [Literal.isLiteral, Bool.and_eq_true, List.all_eq_true] at h
  have hnumeral := h.1.1 c hc
  rw [isNumeral, Bool.or_eq_true, beq_iff_eq] at hnumeral
  rcases hnumeral with hdigit | rfl
  · rw [isGlyph, hdigit, Bool.true_or]
  · rfl

theorem glyphs_sign (negative : Bool) : Glyphs (text.sign negative) := by
  cases negative <;> simp [text.sign, Glyphs, isGlyph]

theorem Layout.glyphs_fraction {digits : List Char}
    (h : ∀ c ∈ digits, c.isDigit = true) : Glyphs (fraction digits) := by
  unfold fraction
  split
  · exact nofun
  · exact List.forall_mem_cons.2 ⟨rfl, glyphs_of_isDigit h⟩

theorem Layout.glyphs_scientific {digits : List Char}
    (h : ∀ c ∈ digits, c.isDigit = true) (exponent : Int) :
    Glyphs (scientific digits exponent) := by
  have hmark : Glyphs ['e', if exponent < 0 then '-' else '+'] := by
    split <;> simp [Glyphs, isGlyph]
  have hpower : Glyphs (Nat.toDigits 10 exponent.natAbs) :=
    glyphs_of_isDigit fun c hc =>
      Nat.isDigit_of_mem_toDigits (by decide) (by decide) hc
  have hfirst : Glyphs (digits.take 1) :=
    glyphs_of_isDigit fun c hc => h c (List.mem_of_mem_take hc)
  have hothers : Glyphs (fraction (digits.drop 1)) :=
    glyphs_fraction fun c hc => h c (List.mem_of_mem_drop hc)
  have hzeros : ∀ n, Glyphs (List.replicate n '0') := fun n =>
    glyphs_of_isDigit fun c hc => isDigit_of_mem_zeros hc
  exact (((hfirst.append hothers).append hmark).append (hzeros _)).append hpower

theorem glyphs_text (l : Layout) (digits : Nat → Int → Digits) (x : Float) :
    Glyphs (text l digits x) := by
  unfold text
  split
  · simp [Glyphs, isGlyph]
  · exact (glyphs_sign _).append (by simp [Glyphs, isGlyph])
  · refine (glyphs_sign _).append ?_
    have hchars : ∀ d : Digits, ∀ c ∈ d.chars, c.isDigit = true := fun d c hc =>
      Digits.isDigit_of_mem_chars hc
    rw [Layout.write]
    split
    · exact glyphs_of_isLiteral (l.isLiteral_positional (hchars _) _)
    · exact Layout.glyphs_scientific (hchars _) _

theorem glyphs_brief (x : Float) : Glyphs (brief x).toList := by
  rw [brief, String.toList_ofList]
  exact glyphs_text _ _ x

end Decimal

-- ==================================================== taking a text apart

namespace Tree

open Decimal

/-- Two formulas whose numbers look alike. -/
def LooksLike : Tree → Tree → Prop := Alike fun x y => brief x = brief y

/-- What ends a number: a blank, a closing parenthesis, or nothing more. -/
def Ends (rest : List Char) : Prop := ∀ c ∈ rest.head?, c = ' ' ∨ c = ')'

variable {rest rest' : List Char}

theorem takeWhile_isGlyph {w : List Char} (hw : Glyphs w) (hrest : Ends rest) :
    (w ++ rest).takeWhile isGlyph = w := by
  rw [List.takeWhile_append_of_pos hw]
  cases rest with
  | nil => exact List.append_nil w
  | cons c rest =>
      have hc : isGlyph c = false := by
        rcases hrest c rfl with rfl | rfl <;> rfl
      rw [List.takeWhile_cons_of_neg (by simp [hc]), List.append_nil]

/-- A text does not begin with a number where it begins with an opening
parenthesis. -/
theorem brief_append_ne (x : Float) (hrest : Ends rest) :
    (brief x).toList ++ rest ≠ '(' :: rest' := by
  intro h
  have hglyphs := glyphs_brief x
  cases hw : (brief x).toList with
  | nil =>
      rw [hw, List.nil_append] at h
      rw [h] at hrest
      rcases hrest _ rfl with hparen | hparen <;> cases hparen
  | cons c w =>
      rw [hw] at h hglyphs
      have hc := hglyphs c (List.mem_cons_self ..)
      rw [(List.cons.inj h).1] at hc
      cases hc

theorem text_node_append (op : Operator) (left right : Tree)
    (rest : List Char) :
    (Tree.node op left right).text.toList ++ rest
      = '(' :: (left.text.toList ++ ' ' :: (op.symbol.toList
        ++ ' ' :: (right.text.toList ++ ')' :: rest))) := by
  simp [text, String.toList_append]

/-- Of two operations that are shown alike up to some rest, the operators
are the same, and so is what comes behind them. -/
theorem eq_of_symbol_append {op op' : Operator}
    (h : op.symbol.toList ++ rest = op'.symbol.toList ++ rest') :
    op = op' ∧ rest = rest' := by
  obtain ⟨c, -, hc⟩ := op.exists_sign
  obtain ⟨c', -, hc'⟩ := op'.exists_sign
  rw [hc, hc'] at h
  obtain ⟨hsame, hbehind⟩ := List.cons.inj h
  refine ⟨Operator.symbol_injective (String.toList_inj.1 ?_), hbehind⟩
  rw [hc, hc', hsame]

/-- Texts of formulas that begin alike are of formulas that look alike. -/
theorem looksLike_of_text_append {t t' : Tree} (hrest : Ends rest)
    (hrest' : Ends rest')
    (h : t.text.toList ++ rest = t'.text.toList ++ rest') :
    t.LooksLike t' ∧ rest = rest' := by
  induction t generalizing t' rest rest' with
  | leaf x =>
      cases t' with
      | leaf y =>
          have hnumber : (brief x).toList = (brief y).toList := by
            rw [← takeWhile_isGlyph (glyphs_brief x) hrest,
              ← takeWhile_isGlyph (glyphs_brief y) hrest']
            exact congrArg _ h
          refine ⟨.leaf (String.toList_inj.1 hnumber), ?_⟩
          have h' : (brief x).toList ++ rest = (brief y).toList ++ rest' := h
          rw [hnumber] at h'
          exact List.append_cancel_left h'
      | node op left right =>
          rw [text_node_append] at h
          exact absurd h (brief_append_ne x hrest)
  | node op left right ihl ihr =>
      rw [text_node_append] at h
      cases t' with
      | leaf y => exact absurd h.symm (brief_append_ne y hrest')
      | node op' left' right' =>
          rw [text_node_append] at h
          -- each operand is ended by what the operation puts behind it
          have hblank : ∀ w, Ends (' ' :: w) := by simp [Ends]
          have hparen : ∀ w, Ends (')' :: w) := by simp [Ends]
          obtain ⟨hleft, hl⟩ := ihl (hblank _) (hblank _) (List.cons.inj h).2
          obtain ⟨hop, ho⟩ := eq_of_symbol_append (List.cons.inj hl).2
          obtain ⟨hright, hr⟩ :=
            ihr (hparen _) (hparen _) (List.cons.inj ho).2
          subst hop
          exact ⟨.node hleft hright, (List.cons.inj hr).2⟩

theorem LooksLike.text_eq {t t' : Tree} (h : t.LooksLike t') :
    t.text = t'.text := by
  induction h with
  | leaf h => exact h
  | node _ _ ihl ihr => rw [text, text, ihl, ihr]

theorem text_eq_iff {t t' : Tree} : t.text = t'.text ↔ t.LooksLike t' := by
  refine ⟨fun h => ?_, LooksLike.text_eq⟩
  have hends : Ends [] := nofun
  exact (looksLike_of_text_append hends hends (by rw [h])).1

end Tree

-- =============================================================== on graphs

namespace Graph

/-- Below a place that unfolds into a formula, the graph is shown as the
formula is: a number by its brief form, an operation by its operands with
the operator between them, in parentheses.  And two such places are shown
alike just where the formulas have the same shape, the same operators in
the same places, and numbers whose brief forms are the same. -/
theorem render_unambiguous (g g' : Graph) (r r' : Option Ref) (t t' : Tree)
    (h : g.Unfolds r t) (h' : g'.Unfolds r' t') :
    g.render r = .ok t.text ∧ g.text r = .ok t.text
      ∧ (g.text r = g'.text r'
        ↔ t.Alike (fun x y => Decimal.brief x = Decimal.brief y) t') := by
  refine ⟨h.render, h.text, ?_⟩
  rw [h.text, h'.text, Except.ok.injEq]
  exact Tree.text_eq_iff

/-- Two differences with one right operand in common, whose left operands
are different numbers that look alike. -/
theorem render_unambiguous_million :
    let g : Graph := ⟨#[⟨.value (-5), none⟩, ⟨.value 1000000, none⟩,
      ⟨.value 1000000.25, none⟩,
      ⟨.operator (some .sub) (some 1) (some 0), none⟩,
      ⟨.operator (some .sub) (some 2) (some 0), none⟩]⟩
    let t (x : Float) : Tree := .node .sub (.leaf x) (.leaf (-5))
    g.Unfolds (some 3) (t 1000000) ∧ g.Unfolds (some 4) (t 1000000.25)
      ∧ g.text (some 3) = .ok "(1e+06 - -5)"
      ∧ g.text (some 3) = g.text (some 4) := by
  intro g t
  have h : g.Unfolds (some 3) (t 1000000) :=
    .node rfl (.leaf rfl) (.leaf rfl)
  have h' : g.Unfolds (some 4) (t 1000000.25) :=
    .node rfl (.leaf rfl) (.leaf rfl)
  obtain ⟨-, htext, hiff⟩ := render_unambiguous g g _ _ _ _ h h'
  have hshown : (t 1000000).text = "(1e+06 - -5)" := by decide +kernel
  have hbrief : Decimal.brief 1000000 = Decimal.brief 1000000.25 := by
    decide +kernel
  exact ⟨h, h', hshown ▸ htext, hiff.2 (.node (.leaf hbrief) (.leaf rfl))⟩

end Graph

end Formula
