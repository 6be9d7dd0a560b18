/-
Reading a formula back from what it is shown as.  A formula is shown with
parentheses around every operation, and no text with parentheses can be
read; but for a formula that was read from a text they say nothing that
the precedence of its operators does not say already.  Without them the
text is its numbers and operators with single blanks between
(`Tree.withoutParens_text`), which is what was once read but for the form
of the numbers, and so the same tree is made of it, with each number as
its brief form tells it (`parse_withoutParens`).

Only numbers whose brief form is plain can be read again.  What is read
from left to right (`Tree.items`) goes with the growth of a tree: one step
adds an operator and a number at its end.
-/
import Formula.Proofs.Decimal.Plain
import Formula.Proofs.Grammar
import Formula.Proofs.Parse
import Formula.Proofs.Plan.Item
import Formula.Proofs.Token.Layout

namespace Formula

open Token

-- =========================================================== on trees

/-- An item as a formula shows it. -/
def Item.text : Item → String
  | .number x => Decimal.brief x
  | .operator op => op.symbol

namespace Tree

/-- The numbers and operators, from left to right. -/
def items : Tree → List Item
  | .leaf x => [.number x]
  | .node op left right => left.items ++ .operator op :: right.items

/-- The numbers, from left to right. -/
def leaves (t : Tree) : List Float := t.items.filterMap Item.number?

/-- The same formula of other numbers. -/
def map (f : Float → Float) : Tree → Tree
  | .leaf x => .leaf (f x)
  | .node op left right => .node op (left.map f) (right.map f)

theorem leaves_node (op : Operator) (left right : Tree) :
    (Tree.node op left right).leaves = left.leaves ++ right.leaves := by
  rw [leaves, items, List.filterMap_append, List.filterMap_cons_none rfl]
  rfl

theorem items_ne_nil (t : Tree) : t.items ≠ [] := by
  cases t with
  | leaf x => exact List.cons_ne_nil _ _
  | node op left right => simp [items]

-- ========================================================== as they grow

theorem items_extend (t : Tree) (op : Operator) (x : Float) :
    (t.extend op x).items = t.items ++ [.operator op, .number x] := by
  induction t with
  | leaf y => rfl
  | node o left right _ ihr =>
      rw [extend]
      split
      · rfl
      · rw [items, items, ihr, List.append_assoc, List.cons_append]

theorem items_foldl (t : Tree) (rest : List (Operator × Float)) :
    (rest.foldl (fun t (op, x) => t.extend op x) t).items
      = t.items ++ rest.flatMap fun (op, x) => [.operator op, .number x] := by
  induction rest generalizing t with
  | nil => exact (List.append_nil _).symm
  | cons pair rest ih =>
      obtain ⟨op, x⟩ := pair
      rw [List.foldl_cons, ih, items_extend, List.flatMap_cons,
        List.append_assoc]

theorem items_byConvention (x : Float) (rest : List (Operator × Float)) :
    (byConvention x rest).items
      = .number x :: rest.flatMap fun (op, x) => [.operator op, .number x] := by
  rw [← foldl_extend_leaf, items_foldl]
  rfl

theorem leaves_byConvention (x : Float) (rest : List (Operator × Float)) :
    (byConvention x rest).leaves = x :: rest.map Prod.snd := by
  rw [leaves, items_byConvention,
    List.filterMap_cons_some (Item.number?_number x), List.filterMap_flatMap,
    ← List.flatMap_pure_eq_map]
  rfl

theorem map_extend (f : Float → Float) (t : Tree) (op : Operator) (x : Float) :
    (t.extend op x).map f = (t.map f).extend op (f x) := by
  induction t with
  | leaf y => rfl
  | node o left right _ ihr =>
      rw [extend, map, extend]
      split
      · rfl
      · rw [map, ihr]

theorem map_foldl (f : Float → Float) (t : Tree)
    (rest : List (Operator × Float)) :
    (rest.foldl (fun t (op, x) => t.extend op x) t).map f
      = (rest.map fun (op, x) => (op, f x)).foldl
        (fun t (op, x) => t.extend op x) (t.map f) := by
  induction rest generalizing t with
  | nil => rfl
  | cons pair rest ih =>
      obtain ⟨op, x⟩ := pair
      rw [List.foldl_cons, ih, map_extend]
      rfl

theorem map_byConvention (f : Float → Float) (x : Float)
    (rest : List (Operator × Float)) :
    (byConvention x rest).map f
      = byConvention (f x) (rest.map fun (op, x) => (op, f x)) := by
  rw [← foldl_extend_leaf, ← foldl_extend_leaf, map_foldl]
  rfl

end Tree

-- ==================================================== without parentheses

/-- A text with its parentheses taken out. -/
def withoutParens (text : String) : String :=
  String.ofList (text.toList.filter fun c => c ≠ '(' ∧ c ≠ ')')

theorem withoutParens_append (a b : String) :
    withoutParens (a ++ b) = withoutParens a ++ withoutParens b := by
  unfold withoutParens
  rw [String.toList_append, List.filter_append, String.ofList_append]

theorem withoutParens_symbol (op : Operator) :
    withoutParens op.symbol = op.symbol := by
  cases op <;> decide +kernel

theorem withoutParens_brief {x : Float} (h : Decimal.Plain x) :
    withoutParens (Decimal.brief x) = Decimal.brief x := by
  unfold withoutParens
  rw [List.filter_eq_self.2, String.ofList_toList]
  intro c hc
  rcases h c hc with hdigit | rfl
  · have hne : c ≠ '(' ∧ c ≠ ')' := by
      constructor
      · rintro rfl
        cases hdigit
      · rintro rfl
        cases hdigit
    exact decide_eq_true hne
  · rfl

/-- Without its parentheses a formula shows its items one after the
other. -/
theorem Tree.withoutParens_text (t : Tree)
    (h : ∀ x ∈ t.leaves, Decimal.Plain x) :
    withoutParens t.text = " ".intercalate (t.items.map Item.text) := by
  induction t with
  | leaf x => exact withoutParens_brief (h x (List.mem_singleton_self x))
  | node op left right ihl ihr =>
      rw [leaves_node] at h
      have hleft := ihl fun x hx => h x (List.mem_append_left _ hx)
      have hright := ihr fun x hx => h x (List.mem_append_right _ hx)
      have hopen : withoutParens "(" = "" := by decide +kernel
      have hclose : withoutParens ")" = "" := by decide +kernel
      have hblank : withoutParens " " = " " := by decide +kernel
      have hne : ∀ t : Tree, t.items.map Item.text ≠ [] := fun t hnil =>
        t.items_ne_nil (List.map_eq_nil_iff.1 hnil)
      calc withoutParens (Tree.node op left right).text
          = " ".intercalate (left.items.map Item.text) ++ " " ++ op.symbol ++ " "
              ++ " ".intercalate (right.items.map Item.text) := by
            simp only [text, withoutParens_append, hopen, hclose, hblank,
              withoutParens_symbol, hleft, hright, String.empty_append,
              String.append_empty]
        _ = " ".intercalate ((Tree.node op left right).items.map Item.text) := by
            rw [items, List.map_append, List.map_cons,
              String.intercalate_append_of_ne_nil (hne left)
                (List.cons_ne_nil _ _),
              String.intercalate_cons_of_ne_nil (hne right)]
            simp only [Item.text, String.append_assoc]

-- ======================================================== its tokens again

/-- The number that is read from the brief form of a number. -/
def reread (x : Float) : Float := Literal.value (Decimal.brief x).toList

/-- The tokens of a formula are a row. -/
theorem row_alternate (first : Numeral) (rest : List (Operator × Numeral)) :
    Row ((alternate first rest).map String.toList) := by
  induction rest generalizing first with
  | nil => exact row_cons.2 ⟨.inl first.numeric, nofun, row_nil⟩
  | cons pair rest ih =>
      obtain ⟨op, n⟩ := pair
      obtain ⟨c, hc, hop⟩ := op.exists_sign
      have hword : Word op.symbol.toList := hop ▸ hc.word
      refine row_cons.2 ⟨.inl first.numeric, fun _ _ => .inl first.numeric,
        row_cons.2 ⟨.inr hword, ?_, ih n⟩⟩
      intro t ht
      rw [← Option.some.inj ht]
      exact .inr n.numeric

/-- Plain numbers with operators between them are shown by the tokens of
a formula, and that is the formula of the numbers that are read from
their brief forms. -/
theorem exists_alternate_items {x : Float} {rest : List (Operator × Float)}
    (hx : Decimal.Plain x) (hrest : ∀ pair ∈ rest, Decimal.Plain pair.2) :
    ∃ (first : Numeral) (pairs : List (Operator × Numeral)),
      (Tree.byConvention x rest).items.map Item.text = alternate first pairs
        ∧ first.value = reread x
        ∧ (pairs.map fun (op, v) => (op, v.value))
          = rest.map fun (op, y) => (op, reread y) := by
  have hpairs : ∃ pairs : List (Operator × Numeral),
      (rest.flatMap fun (op, y) => [.operator op, .number y]).map Item.text
          = continuation pairs
        ∧ (pairs.map fun (op, v) => (op, v.value))
          = rest.map fun (op, y) => (op, reread y) := by
    induction rest with
    | nil => exact ⟨[], rfl, rfl⟩
    | cons pair rest ih =>
        obtain ⟨op, y⟩ := pair
        obtain ⟨hy, hrest⟩ := List.forall_mem_cons.1 hrest
        obtain ⟨pairs, htokens, hvalues⟩ := ih hrest
        refine ⟨(op, ⟨Decimal.brief y, hy.isLiteral⟩) :: pairs, ?_, ?_⟩
        · rw [List.flatMap_cons, List.map_append, htokens]
          rfl
        · rw [List.map_cons, hvalues]
          rfl
  obtain ⟨pairs, htokens, hvalues⟩ := hpairs
  refine ⟨⟨Decimal.brief x, hx.isLiteral⟩, pairs, ?_, rfl, hvalues⟩
  rw [Tree.items_byConvention, List.map_cons, htokens]
  rfl

/-- The formula of a text, shown without parentheses, has the tokens of
the same formula of other numbers. -/
theorem exists_tokenize_withoutParens (x : Float)
    (rest : List (Operator × Float))
    (h : ∀ y ∈ (Tree.byConvention x rest).leaves, Decimal.Plain y) :
    ∃ first pairs,
      tokenize (withoutParens (Tree.byConvention x rest).text)
          = alternate first pairs
        ∧ Tree.ofNumerals first pairs
          = (Tree.byConvention x rest).map reread := by
  have hplain := h
  rw [Tree.leaves_byConvention] at hplain
  obtain ⟨hx, hrest⟩ := List.forall_mem_cons.1 hplain
  have hothers : ∀ pair ∈ rest, Decimal.Plain pair.2 := fun pair hpair =>
    hrest pair.2 (List.mem_map_of_mem hpair)
  obtain ⟨first, pairs, htokens, hfirst, hpairs⟩ :=
    exists_alternate_items hx hothers
  refine ⟨first, pairs, ?_, ?_⟩
  · rw [Tree.withoutParens_text _ h, htokens]
    exact tokenize_intercalate (row_alternate first pairs)
  · rw [Tree.ofNumerals, hfirst, hpairs, Tree.map_byConvention]

-- ============================================================== on texts

/-- If the numbers of a formula that was read all have a plain brief form,
then what it is shown as, without the parentheses, is read as the same
formula with each number as its brief form tells it. -/
theorem parse_withoutParens (log log' : Log) (g g' start : Graph)
    (text : String) (inspection : Inspection) (root : Option Ref)
    (h : (parse log g text inspection).2 = .ok (g', root))
    (hplain : ∀ t, g'.Holds root t → ∀ x ∈ t.leaves, Decimal.Plain x) :
    ∃ t shown g'' root', (∀ u, g'.Holds root u ↔ u = t)
      ∧ Equation.text g' { root := root }
        = .ok ({ root := root, shown := some shown }, shown)
      ∧ (parse log' start (withoutParens shown) .skip).2
        = .ok (g'', some root')
      ∧ (∀ u, g''.Holds (some root') u ↔ u = t.map reread)
      ∧ ∀ x ∈ t.leaves,
        Literal.read? (Decimal.brief x) = some (reread x) := by
  obtain ⟨first, rest, -, hholds⟩ := exists_holds_of_parse h
  have hleaves := hplain _ hholds
  obtain ⟨first', pairs, htokens, htree⟩ :=
    exists_tokenize_withoutParens first.value _ hleaves
  obtain ⟨g'', root', hparse, hholds'⟩ :=
    exists_parse_of_tokenize log' start htokens
  rw [htree] at hholds'
  refine ⟨_, _, g'', root', fun u => hholds.iff_eq, ?_, hparse,
    fun u => hholds'.iff_eq, fun x hx => ?_⟩
  · unfold Equation.text
    dsimp only
    rw [hholds.text]
    rfl
  · rw [Literal.read?, if_pos (hleaves x hx).isLiteral]
    rfl

/-- A number of eight digits is read again with the six that are shown. -/
theorem parse_withoutParens_rounded :
    let x (digits : String) := Tree.leaf (Literal.value digits.toList)
    ∃ g' root shown g'' root',
      (parse {} Graph.empty "2*3.1415926-.50" .validate).2
          = .ok (g', some root)
        ∧ Equation.text g' { root := some root }
          = .ok ({ root := some root, shown := some shown }, shown)
        ∧ shown = "((2 * 3.14159) - 0.5)"
        ∧ (parse {} g' (withoutParens shown) .skip).2 = .ok (g'', some root')
        ∧ g''.Holds (some root')
          (.node .sub (.node .mul (x "2") (x "3.14159")) (x "0.5")) := by
  intro x
  let two : Numeral := ⟨"2", by decide +kernel⟩
  let rest : List (Operator × Numeral) :=
    [(.mul, ⟨"3.1415926", by decide +kernel⟩), (.sub, ⟨".50", by decide +kernel⟩)]
  have htokens : tokenize "2*3.1415926-.50" = alternate two rest := by
    decide +kernel
  obtain ⟨g', root, hparse, hholds⟩ :=
    exists_parse_of_tokenize {} Graph.empty htokens
  rw [← parse_validate] at hparse
  have hplain : ∀ t, g'.Holds (some root) t →
      ∀ y ∈ t.leaves, Decimal.Plain y := by
    intro t ht
    rw [hholds.iff_eq.1 ht]
    decide +kernel
  obtain ⟨t, shown, g'', root', ht, hshown, hparse', htree, -⟩ :=
    parse_withoutParens {} {} Graph.empty g' g' _ .validate _ hparse hplain
  obtain rfl := (ht _).1 hholds
  have htext : shown = (Tree.ofNumerals two rest).text := by
    have h := hholds.text
    unfold Equation.text at hshown
    dsimp only at hshown
    rw [h] at hshown
    cases hshown
    rfl
  refine ⟨g', root, shown, g'', root', hparse, hshown, ?_, hparse', ?_⟩
  · rw [htext]
    decide +kernel
  · have hvalues : reread two.value = Literal.value "2".toList
        ∧ reread (Literal.value "3.1415926".toList)
          = Literal.value "3.14159".toList
        ∧ reread (Literal.value ".50".toList) = Literal.value "0.5".toList := by
      decide +kernel
    obtain ⟨h₁, h₂, h₃⟩ := hvalues
    refine (htree _).2 ?_
    show _ = Tree.node .sub (.node .mul (.leaf (reread two.value))
      (.leaf (reread (Literal.value "3.1415926".toList))))
      (.leaf (reread (Literal.value ".50".toList)))
    rw [h₁, h₂, h₃]

end Formula
