/-
Numbers that are written plainly.  A number is laid out with digits, and
for some numbers with a point, a sign, a power of ten or letters.  Where
nothing but digits and points came of it, what was written is a literal:
there is a digit before the point, and one point at most
(`isLiteral_text`).  So a number whose brief form is plain can be read
again (`Plain.isLiteral`).
-/
import Formula.Decimal
import Formula.Literal

namespace Formula.Decimal

open Literal Token

/-- The brief form of a number shows nothing but digits and points. -/
def Plain (x : Float) : Prop :=
  ∀ c ∈ (brief x).toList, c.isDigit = true ∨ c = '.'

instance (x : Float) : Decidable (Plain x) :=
  List.decidableBAll (fun c : Char => c.isDigit = true ∨ c = '.')
    (brief x).toList

theorem isNumeral_of_isDigit {c : Char} (h : c.isDigit = true) :
    isNumeral c = true := by
  rw [isNumeral, h, Bool.true_or]

theorem ne_point_of_isDigit {c : Char} (h : c.isDigit = true) : c ≠ '.' := by
  rintro rfl
  cases h

/-- Digits, and digits behind a point if there are any, are a literal. -/
theorem isLiteral_fraction {whole part : List Char} (hne : whole ≠ [])
    (hwhole : ∀ c ∈ whole, c.isDigit = true)
    (hpart : ∀ c ∈ part, c.isDigit = true) :
    isLiteral (whole ++ Layout.fraction part) = true := by
  have hnone : ∀ digits : List Char, (∀ c ∈ digits, c.isDigit = true) →
      digits.count '.' = 0 := fun digits h =>
    List.count_eq_zero.2 fun hmem => ne_point_of_isDigit (h _ hmem) rfl
  obtain ⟨d, rest, rfl⟩ := List.exists_cons_of_ne_nil hne
  have hd : d.isDigit = true := hwhole d (List.mem_cons_self ..)
  simp only [isLiteral, Bool.and_eq_true, List.all_eq_true, List.any_eq_true,
    decide_eq_true_eq]
  refine ⟨⟨?_, d, by simp, hd⟩, ?_⟩
  · intro c hc
    rcases List.mem_append.1 hc with hc | hc
    · exact isNumeral_of_isDigit (hwhole c hc)
    · rw [Layout.fraction] at hc
      split at hc
      · cases hc
      · rcases List.mem_cons.1 hc with rfl | hc
        · rfl
        · exact isNumeral_of_isDigit (hpart c hc)
  · rw [List.count_append, hnone _ hwhole, Layout.fraction]
    split
    · exact Nat.zero_le _
    · rw [List.count_cons, hnone _ hpart]
      exact Nat.le_refl 1

theorem Digits.isDigit_of_mem_chars {d : Digits} {c : Char} (h : c ∈ d.chars) :
    c.isDigit = true := by
  have hmem := (List.dropWhile_sublist _).subset (List.mem_reverse.1 h)
  exact Nat.isDigit_of_mem_toDigits (by decide) (by decide)
    (List.mem_reverse.1 hmem)

theorem isDigit_of_mem_zeros {n : Nat} {c : Char}
    (h : c ∈ List.replicate n '0') : c.isDigit = true := by
  rw [List.eq_of_mem_replicate h]
  rfl

/-- Digits in their places are a literal. -/
theorem Layout.isLiteral_positional (l : Layout) {digits : List Char}
    (h : ∀ c ∈ digits, c.isDigit = true) (exponent : Int) :
    isLiteral (l.positional digits exponent) = true := by
  have hwhole : ∀ (k m : Nat),
      ∀ c ∈ digits.take k ++ List.replicate m '0', c.isDigit = true := by
    intro k m c hc
    rcases List.mem_append.1 hc with hc | hc
    · exact h c (List.mem_of_mem_take hc)
    · exact isDigit_of_mem_zeros hc
  have hpart : ∀ (k m : Nat),
      ∀ c ∈ List.replicate m '0' ++ digits.drop k, c.isDigit = true := by
    intro k m c hc
    rcases List.mem_append.1 hc with hc | hc
    · exact isDigit_of_mem_zeros hc
    · exact h c (List.mem_of_mem_drop hc)
  unfold positional
  dsimp only
  -- a whole number may carry a point and a zero, which is a fraction too
  have hzero : ['.', '0'] = fraction ['0'] := rfl
  rw [hzero, ← apply_ite fraction]
  refine isLiteral_fraction ?_ ?_ ?_
  · split
    · exact List.cons_ne_nil _ _
    · next hempty => exact fun hnil => hempty (List.isEmpty_iff.2 hnil)
  · split
    · simp
    · exact hwhole _ _
  · split
    · simp
    · exact hpart _ _

/-- A number that is laid out with digits and points alone is a literal. -/
theorem isLiteral_text (l : Layout) (digits : Nat → Int → Digits) (x : Float)
    (h : ∀ c ∈ text l digits x, isNumeral c = true) :
    isLiteral (text l digits x) = true := by
  unfold text at h ⊢
  split at h
  · exact absurd (h 'n' (by simp)) (by decide)
  · exact absurd (h 'i' (by simp)) (by decide)
  · next negative mantissa exponent _ =>
    cases negative with
    | true => exact absurd (h '-' (by simp [text.sign])) (by decide)
    | false =>
        simp only [text.sign, Bool.false_eq_true, if_false, List.nil_append]
          at h ⊢
        rw [Layout.write] at h ⊢
        split at h
        · next hplace =>
          rw [if_pos hplace]
          exact l.isLiteral_positional (fun c => Digits.isDigit_of_mem_chars) _
        · exact absurd (h 'e' (by simp [Layout.scientific])) (by decide)

theorem Plain.isLiteral {x : Float} (h : Plain x) :
    isLiteral (brief x).toList = true := by
  have hnumeral : ∀ c ∈ (brief x).toList, isNumeral c = true := by
    intro c hc
    rcases h c hc with hdigit | rfl
    · exact isNumeral_of_isDigit hdigit
    · rfl
  rw [brief, String.toList_ofList] at hnumeral ⊢
  exact isLiteral_text _ _ x hnumeral

end Formula.Decimal
