/-
The algebraic form keeps the formula.  It has no differences and no
quotients: these are a sum and a product with something that no formula
has for its own form, a product with the whole number -1 and a power.
That keeps them apart from the sums and products of a formula, whatever
its numbers are, -1 included: forms of formulas are `Proper`, an operation
on proper forms tells its operator and its operands
(`Algebra.ofOperator_inj`), and so a form tells the formula
(`Tree.form_eq_iff`).

# Numbers

The form of a number tells the number but for the sign of zero
(`Algebra.ofFloat_eq_iff`).  That is read off its bits
(`Algebra.ofNumber_ofFloat`).

# Meaning

In a field a form can be read with sums, products and inverses, and the
formula with all four operators.  Where the numbers are taken to mean
something, with no difference between the zeros, both come to the same
(`Tree.meaning?_form`).
-/
import Mathlib
import Formula.Proofs.Graph.Unfolding

namespace Formula

universe u

/-- The same number: equal, or both undefined.  Zeros are equal whatever
their signs. -/
def SameNumber (x y : Float) : Prop :=
  (x == y) = true ∨ (x.isNaN = true ∧ y.isNaN = true)

-- =============================================================== numbers

/-- A zero of either sign. -/
def IsZero (x : Float) : Prop := x = 0 ∨ x = -0

theorem sameNumber_iff {x y : Float} :
    SameNumber x y ↔ x = y ∨ (IsZero x ∧ IsZero y) := by
  have hpos : (0 : Float) ≠ .nan := by decide +kernel
  have hneg : (-0 : Float) ≠ .nan := by decide +kernel
  rw [SameNumber, Float.beq_iff_ne_nan_and_eq, Float.isNaN_eq_decide_eq_nan,
    Float.isNaN_eq_decide_eq_nan, decide_eq_true_eq, decide_eq_true_eq]
  unfold IsZero
  grind

theorem eq_of_toNat_toBits {x y : Float}
    (h : x.toBits.toNat = y.toBits.toNat) : x = y :=
  Float.toBits_inj.1 (UInt64.toNat_inj.1 h)

/-- There is one number whose bits say that it is none. -/
theorem eq_nan_of_bits {x : Float}
    (hfield : x.toBits.toNat / 2 ^ 52 % 2 ^ 11 = 2047)
    (hfraction : x.toBits.toNat % 2 ^ 52 ≠ 0) : x = .nan := by
  open Float.Model.UnpackedFloat in
  have hexponent : @unpackExponent .binary64 x.toBits.toBitVec = -1#11 := by
    apply BitVec.eq_of_toNat_eq
    rw [unpackExponent_def, BitVec.extractLsb'_toNat,
      Nat.shiftRight_eq_div_pow]
    exact hfield
  open Float.Model.UnpackedFloat in
  have hmantissa : @unpackMantissa .binary64 x.toBits.toBitVec ≠ 0#52 := by
    intro h
    have hzero := congrArg BitVec.toNat h
    rw [unpackMantissa_def, BitVec.extractLsb'_toNat] at hzero
    exact hfraction hzero
  have hbits := x.toModel.valid.eq_packedNaN hexponent hmantissa
  exact Float.toBits_inj.1 (UInt64.toBitVec_inj.1 hbits)

theorem isZero_iff_bits {x : Float} :
    IsZero x ↔ x.toBits.toNat = 0 ∨ x.toBits.toNat = 2 ^ 63 := by
  have hpos : (0 : Float).toBits.toNat = 0 := by decide +kernel
  have hneg : (-0 : Float).toBits.toNat = 2 ^ 63 := by decide +kernel
  rw [← hpos, ← hneg]
  constructor
  · rintro (rfl | rfl)
    · exact Or.inl rfl
    · exact Or.inr rfl
  · rintro (h | h)
    · exact Or.inl (eq_of_toNat_toBits h)
    · exact Or.inr (eq_of_toNat_toBits h)

namespace Algebra

/-- The forms that numbers have. -/
inductive OfNumber (x : Float) : Algebra → Prop
  | zero (h : IsZero x) : OfNumber x (.number 0)
  | other (h : ¬ IsZero x) : OfNumber x (.number x)
  | infinity (h : x = .inf) : OfNumber x .infinity
  | negativeInfinity (h : x = -.inf) : OfNumber x .negativeInfinity
  | undefined (h : x = .nan) : OfNumber x .undefined

/-- The form is told by the bits: by all ones in the exponent what is not
finite, by no ones but the sign's what is zero. -/
theorem ofNumber_ofFloat (x : Float) : OfNumber x (ofFloat x) := by
  have hlt : x.toBits.toNat < 2 ^ 64 := x.toBits.toNat_lt
  have hinf : Float.inf.toBits.toNat = 2047 * 2 ^ 52 := by decide +kernel
  have hneginf : (-Float.inf).toBits.toNat = 2 ^ 63 + 2047 * 2 ^ 52 := by
    decide +kernel
  have hzero := isZero_iff_bits (x := x)
  have h63 : Nat.pow 2 63 = 2 ^ 63 := rfl
  have h52 : Nat.pow 2 52 = 2 ^ 52 := rfl
  have h11 : Nat.pow 2 11 = 2 ^ 11 := rfl
  unfold ofFloat Binary64.ofFloat
  simp only [h63, h52, h11]
  by_cases hfield : x.toBits.toNat / 2 ^ 52 % 2 ^ 11 = 2047
  · by_cases hfraction : x.toBits.toNat % 2 ^ 52 = 0
    · -- the sign is all that is left to tell
      simp only [hfield, hfraction, if_true, beq_iff_eq]
      split
      · exact .negativeInfinity (eq_of_toNat_toBits (by omega))
      · exact .infinity (eq_of_toNat_toBits (by omega))
    · simp only [hfield, hfraction, if_true, if_false]
      exact .undefined (eq_nan_of_bits hfield hfraction)
  · by_cases hleast : x.toBits.toNat / 2 ^ 52 % 2 ^ 11 = 0
    · simp only [hleast, if_true]
      rw [if_neg (by decide)]
      dsimp only
      split
      · exact .zero (hzero.2 (by omega))
      · refine .other fun h => ?_
        rcases hzero.1 h with h | h <;> omega
    · -- the mantissa has a one in front of the fraction
      simp only [hfield, hleast, if_false]
      rw [if_neg (by omega)]
      refine .other fun h => ?_
      rcases hzero.1 h with h | h <;> omega

theorem OfNumber.sameNumber {x y : Float} {a : Algebra} (hx : OfNumber x a)
    (hy : OfNumber y a) : SameNumber x y := by
  rw [sameNumber_iff]
  cases hx with
  | zero hx =>
      cases hy with
      | zero hy => exact Or.inr ⟨hx, hy⟩
      | other hy => exact absurd (Or.inl rfl) hy
  | other hx =>
      cases hy with
      | zero hy => exact absurd (Or.inl rfl) hx
      | other hy => exact Or.inl rfl
  | infinity hx =>
      cases hy with
      | infinity hy => exact Or.inl (hx.trans hy.symm)
  | negativeInfinity hx =>
      cases hy with
      | negativeInfinity hy => exact Or.inl (hx.trans hy.symm)
  | undefined hx =>
      cases hy with
      | undefined hy => exact Or.inl (hx.trans hy.symm)

theorem ofFloat_of_isZero {x : Float} (h : IsZero x) :
    ofFloat x = .number 0 := by
  rcases h with rfl | rfl
  · rfl
  · rfl

/-- The form of a number tells the number. -/
theorem ofFloat_eq_iff {x y : Float} :
    ofFloat x = ofFloat y ↔ SameNumber x y := by
  constructor
  · intro h
    have hx := ofNumber_ofFloat x
    rw [h] at hx
    exact hx.sameNumber (ofNumber_ofFloat y)
  · intro h
    rcases sameNumber_iff.1 h with rfl | ⟨hx, hy⟩
    · rfl
    · rw [ofFloat_of_isZero hx, ofFloat_of_isZero hy]

-- ============================================================== the shape

/-- Neither a whole number nor a power, and no product that begins with a
whole number. -/
def Proper : Algebra → Prop
  | .integer _ | .power .. | .product (.integer _) _ => False
  | _ => True

theorem OfNumber.proper {x : Float} {a : Algebra} (h : OfNumber x a) :
    Proper a := by
  cases h <;> trivial

theorem proper_ofOperator {a : Algebra} (op : Operator) (b : Algebra)
    (ha : Proper a) : Proper (ofOperator op a b) := by
  cases op with
  | add | sub => trivial
  | mul | div =>
      cases a with
      | integer n => exact ha.elim
      | _ => trivial

theorem OfNumber.ne_ofOperator {x : Float} {a b c : Algebra} {op : Operator}
    (h : OfNumber x a) : a ≠ ofOperator op b c := by
  cases h <;> cases op <;> exact nofun

/-- An operation on forms tells its operator and its operands.  A proper
right operand is neither what one that is subtracted is turned into nor
what a divisor is. -/
theorem ofOperator_inj {op op' : Operator} {a b a' b' : Algebra}
    (hb : Proper b) (hb' : Proper b') :
    ofOperator op a b = ofOperator op' a' b' ↔ op = op' ∧ a = a' ∧ b = b' := by
  constructor
  · intro h
    cases op <;> cases op' <;> grind [ofOperator, Proper]
  · rintro ⟨rfl, rfl, rfl⟩
    rfl

end Algebra

namespace Tree

/-- The algebraic form of a formula. -/
def form (t : Tree) : Algebra := t.fold Algebra.ofFloat Algebra.ofOperator

theorem proper_form (t : Tree) : t.form.Proper := by
  induction t with
  | leaf x => exact (Algebra.ofNumber_ofFloat x).proper
  | node op left right ihl _ => exact Algebra.proper_ofOperator op _ ihl

theorem form_leaf_ne (x : Float) (op : Operator) (left right : Tree) :
    (leaf x).form ≠ (node op left right).form :=
  (Algebra.ofNumber_ofFloat x).ne_ofOperator

theorem alike_of_form {s t : Tree} (h : s.form = t.form) :
    s.Alike SameNumber t := by
  induction s generalizing t with
  | leaf x =>
      cases t with
      | leaf y => exact .leaf (Algebra.ofFloat_eq_iff.1 h)
      | node op left right => exact absurd h (form_leaf_ne x op left right)
  | node op left right ihl ihr =>
      cases t with
      | leaf y => exact absurd h.symm (form_leaf_ne y op left right)
      | node op' left' right' =>
          obtain ⟨rfl, hleft, hright⟩ := (Algebra.ofOperator_inj
            right.proper_form right'.proper_form).1 h
          exact .node (ihl hleft) (ihr hright)

theorem Alike.form_eq {s t : Tree} (h : s.Alike SameNumber t) :
    s.form = t.form := by
  induction h with
  | leaf h => exact Algebra.ofFloat_eq_iff.2 h
  | @node op _ _ _ _ _ _ ihl ihr =>
      exact congrArg₂ (Algebra.ofOperator op) ihl ihr

/-- A form tells the formula. -/
theorem form_eq_iff {s t : Tree} : s.form = t.form ↔ s.Alike SameNumber t :=
  ⟨alike_of_form, Alike.form_eq⟩

end Tree

-- ============================================================ the meaning

section Meaning

variable {F : Type u} [Field F]

/-- An operator on the elements of a field. -/
def Operator.inField : Operator → F → F → F
  | .add, a, b => a + b
  | .sub, a, b => a - b
  | .mul, a, b => a * b
  | .div, a, b => a / b

variable (number : Float → F)

/-- A formula read in a field, its numbers by what they are taken to
mean. -/
def Tree.meaning : Tree → F
  | .leaf x => number x
  | .node op left right => op.inField left.meaning right.meaning

/-- An algebraic form read in a field: a power of -1 is an inverse, and no
other powers are read. -/
def Algebra.meaning? : Algebra → Option F
  | .number x => some (number x)
  | .infinity => some (number .inf)
  | .negativeInfinity => some (number (-.inf))
  | .undefined => some (number .nan)
  | .integer n => some n
  | .sum a b => do return (← a.meaning?) + (← b.meaning?)
  | .product a b => do return (← a.meaning?) * (← b.meaning?)
  | .power a (.integer (-1)) => do return (← a.meaning?)⁻¹
  | .power _ _ => none

variable {number}

theorem Algebra.OfNumber.meaning? {x : Float} {a : Algebra}
    (h : OfNumber x a) (hsame : ∀ x y, SameNumber x y → number x = number y) :
    a.meaning? number = some (number x) := by
  cases h with
  | zero h =>
      exact congrArg some (hsame 0 x (sameNumber_iff.2 (.inr ⟨.inl rfl, h⟩)))
  | other h => rfl
  | infinity h | negativeInfinity h | undefined h =>
      rw [h]
      rfl

theorem Algebra.meaning?_ofOperator {a b : Algebra} {x y : F}
    (op : Operator) (ha : a.meaning? number = some x)
    (hb : b.meaning? number = some y) :
    (ofOperator op a b).meaning? number = some (op.inField x y) := by
  cases op with
  | add | mul => simp [ofOperator, Operator.inField, meaning?, ha, hb]
  | sub =>
      simp [ofOperator, Operator.inField, meaning?, ha, hb, sub_eq_add_neg]
  | div =>
      simp [ofOperator, Operator.inField, meaning?, ha, hb, div_eq_mul_inv]

theorem Tree.meaning?_form (t : Tree)
    (hsame : ∀ x y, SameNumber x y → number x = number y) :
    t.form.meaning? number = some (t.meaning number) := by
  induction t with
  | leaf x => exact (Algebra.ofNumber_ofFloat x).meaning? hsame
  | node op left right ihl ihr => exact Algebra.meaning?_ofOperator op ihl ihr

end Meaning

-- =============================================================== on graphs

namespace Graph

/-- Below places that unfold into formulas there are algebraic forms, and
they are made wherever the calls that the formula needs may be nested.
They are the same just where the formulas have the same shape, the same
operators in the same places, and numbers that are the same but for the
sign of zero.  And whatever the numbers are taken to mean in a field, with
no difference between the zeros, the form and the formula come to the
same. -/
theorem algebraicForm_faithful (g g' : Graph) (r r' : Option Ref)
    (t t' : Tree) (h : g.Unfolds r t) (h' : g'.Unfolds r' t') :
    ∃ form form',
      (∀ c limit, g.algebraicForm c limit r
        = if t.calls c ≤ limit then .ok form else .error (.fault .tooDeep))
      ∧ (∀ c limit, g'.algebraicForm c limit r'
        = if t'.calls c ≤ limit then .ok form' else .error (.fault .tooDeep))
      ∧ (form = form' ↔ t.Alike SameNumber t')
      ∧ ∀ (F : Type u) [Field F] (number : Float → F),
        (∀ x y, SameNumber x y → number x = number y) →
        form.meaning? number = some (t.meaning number) :=
  ⟨t.form, t'.form, h.algebraicForm, h'.algebraicForm, Tree.form_eq_iff,
    fun _ _ _ hsame => t.meaning?_form hsame⟩

/-- Three less zero, three less negative zero, and three and -1 times
zero. -/
theorem algebraicForm_faithful_zeros :
    let g : Graph := ⟨#[⟨.value 3, none⟩, ⟨.value 0, none⟩,
      ⟨.value (-0), none⟩, ⟨.value (-1), none⟩,
      ⟨.operator (some .sub) (some 0) (some 1), none⟩,
      ⟨.operator (some .sub) (some 0) (some 2), none⟩,
      ⟨.operator (some .mul) (some 3) (some 1), none⟩,
      ⟨.operator (some .add) (some 0) (some 6), none⟩]⟩
    let t (x : Float) : Tree := .node .sub (.leaf 3) (.leaf x)
    let u : Tree := .node .add (.leaf 3) (.node .mul (.leaf (-1)) (.leaf 0))
    let number (x : Float) : ℚ := if x == 3 then 3 else 0
    let c : Overhead := { reading := 1, applying := 3 }
    g.Unfolds (some 4) (t 0) ∧ g.Unfolds (some 5) (t (-0))
      ∧ g.Unfolds (some 7) u
      ∧ (∀ x y, SameNumber x y → number x = number y)
      ∧ g.algebraicForm c 10 (some 4) = g.algebraicForm c 10 (some 5)
      ∧ g.algebraicForm c 10 (some 4) ≠ g.algebraicForm c 10 (some 7)
      ∧ ∃ form, g.algebraicForm c 10 (some 4) = .ok form
        ∧ form.meaning? number = some 3 := by
  intro g t u number c
  have hzero : g.Unfolds (some 4) (t 0) := .node rfl (.leaf rfl) (.leaf rfl)
  have hnegative : g.Unfolds (some 5) (t (-0)) :=
    .node rfl (.leaf rfl) (.leaf rfl)
  have hsum : g.Unfolds (some 7) u :=
    .node rfl (.leaf rfl) (.node rfl (.leaf rfl) (.leaf rfl))
  have hnumber : ∀ x y, SameNumber x y → number x = number y := by
    intro x y h
    rcases sameNumber_iff.1 h with rfl | ⟨rfl | rfl, rfl | rfl⟩ <;> rfl
  obtain ⟨form, form', hform, hform', hiff, hmeaning⟩ :=
    algebraicForm_faithful g g _ _ _ _ hzero hnegative
  obtain ⟨form₂, form₃, hform₂, hform₃, hiff₂, -⟩ :=
    algebraicForm_faithful.{0} g g _ _ _ _ hzero hsum
  have hcalls (x : Float) : (t x).calls c ≤ 10 := by
    show max 1 (max 1 3) + 1 ≤ 10
    decide
  have hcalls' : u.calls c ≤ 10 := by
    show max 1 (max (max 1 (max 1 3) + 1) 3) + 1 ≤ 10
    decide
  have hsame : (t 0).Alike SameNumber (t (-0)) :=
    .node (.leaf (.inl (by decide +kernel))) (.leaf (.inl (by decide +kernel)))
  have hother : ∀ a b c d,
      ¬ (Tree.node .sub a b).Alike SameNumber (.node .add c d) := nofun
  refine ⟨hzero, hnegative, hsum, hnumber, ?_, ?_, form, ?_, ?_⟩
  · rw [hform, hform', if_pos (hcalls 0), if_pos (hcalls (-0)), hiff.2 hsame]
  · rw [hform₂, hform₃, if_pos (hcalls 0), if_pos hcalls']
    exact fun h => hother _ _ _ _ (hiff₂.1 (Except.ok.inj h))
  · rw [hform, if_pos (hcalls 0)]
  · rw [hmeaning ℚ number hnumber]
    exact congrArg some (sub_zero (3 : ℚ))

end Graph

end Formula
