/-
What a list of tokens must be, and how it must be laid out, to be the
tokens of a text.  `Spaced` peels one token after another off a text and
looks at the text that is left; here the same is said of the list as a
whole (`spaced_iff`).

- The list is a `Row`: numeric tokens and words, never two words in turn.
- The text is a `Layout` of it: blanks in front, blanks after each token,
  and one blank at least where two numeric tokens would run together.

A row can always be laid out, with one blank after every token but the
last (`Row.spaced_intercalate`), so nothing but what the tokens are
decides whether some text has them.
-/
import Formula.Proofs.Token.Spacing
import Mathlib.Data.List.Chain

namespace Formula.Token

open Text

-- ======================================================= the vocabulary

/-- Tokens that a text can have: of two neighbours one is numeric. -/
structure Row (ts : List (List Char)) : Prop where
  kinds : ∀ t ∈ ts, Numeric t ∨ Word t
  mixed : ts.IsChain fun s t => Numeric s ∨ Numeric t

/-- A token, and what is written between it and the next. -/
structure Piece where
  token : List Char
  gap : List Char

/-- What is written by some blanks and the pieces after them. -/
def Piece.write (front : List Char) (pieces : List Piece) : List Char :=
  front ++ pieces.flatMap fun p => p.token ++ p.gap

/-- The text is the tokens with blanks around them, and where two numeric
ones are neighbours there is a blank between them. -/
structure Layout (text : List Char) (ts : List (List Char))
    (front : List Char) (pieces : List Piece) : Prop where
  tokens : pieces.map Piece.token = ts
  text_eq : text = Piece.write front pieces
  front_blank : Blank front
  gap_blank : ∀ p ∈ pieces, Blank p.gap
  apart : pieces.IsChain fun p q =>
    Numeric p.token → Numeric q.token → p.gap ≠ []

-- ================================================================= rows

theorem Word.not_numeric {t : List Char} (h : Word t) : ¬ Numeric t := by
  intro hnum
  obtain ⟨c, t, rfl⟩ := List.exists_cons_of_ne_nil h.ne_nil
  have hc := hnum.2 c (List.mem_cons_self ..)
  rw [h.other c (List.mem_cons_self ..)] at hc
  cases hc

theorem Word.stops {t rest : List Char} (h : Word t) : Stops (t ++ rest) :=
  stops_append h.other fun hnil => absurd hnil h.ne_nil

theorem Numeric.not_stops {t rest : List Char} (h : Numeric t) :
    ¬ Stops (t ++ rest) := by
  intro hstops
  obtain ⟨c, t, rfl⟩ := List.exists_cons_of_ne_nil h.1
  have hc := hstops c rfl
  rw [h.2 c (List.mem_cons_self ..)] at hc
  cases hc

theorem row_nil : Row [] := ⟨nofun, .nil⟩

theorem row_cons {t : List Char} {ts : List (List Char)} :
    Row (t :: ts) ↔ (Numeric t ∨ Word t)
      ∧ (∀ t' ∈ ts.head?, Numeric t ∨ Numeric t') ∧ Row ts := by
  constructor
  · intro h
    obtain ⟨ht, hkinds⟩ := List.forall_mem_cons.1 h.kinds
    obtain ⟨hnext, hmixed⟩ := List.isChain_cons.1 h.mixed
    exact ⟨ht, hnext, hkinds, hmixed⟩
  · intro ⟨ht, hnext, hrow⟩
    exact ⟨List.forall_mem_cons.2 ⟨ht, hrow.kinds⟩,
      List.isChain_cons.2 ⟨hnext, hrow.mixed⟩⟩

/-- A row goes on after a word with a numeric token. -/
theorem Row.next_numeric {t : List Char} {ts : List (List Char)}
    (h : Row (t :: ts)) (ht : Word t) : ∀ t' ∈ ts.head?, Numeric t' := by
  intro t' ht'
  exact ((row_cons.1 h).2.1 t' ht').resolve_left ht.not_numeric

-- ========================================================== from spacing

theorem Spaced.row {text : List Char} {ts : List (List Char)}
    (h : Spaced text ts) : Row ts := by
  induction h with
  | blank _ => exact row_nil
  | numeric _ ht _ _ ih => exact row_cons.2 ⟨.inl ht, fun _ _ => .inl ht, ih⟩
  | word _ ht hnext _ ih =>
      exact row_cons.2 ⟨.inr ht, fun t' ht' => .inr (hnext t' ht'), ih⟩

theorem Layout.cons {w t rest front : List Char} {ts : List (List Char)}
    {pieces : List Piece} (h : Layout rest ts front pieces) (hw : Blank w)
    (hapart : ∀ q ∈ pieces.head?, Numeric t → Numeric q.token → front ≠ []) :
    Layout (w ++ t ++ rest) (t :: ts) w (⟨t, front⟩ :: pieces) where
  tokens := by rw [List.map_cons, h.tokens]
  text_eq := by
    rw [h.text_eq]
    simp only [Piece.write, List.flatMap_cons, List.append_assoc]
  front_blank := hw
  gap_blank := List.forall_mem_cons.2 ⟨h.front_blank, h.gap_blank⟩
  apart := List.isChain_cons.2 ⟨hapart, h.apart⟩

/-- The blanks before the tokens that are left are the gap after the
token that was peeled off. -/
theorem Spaced.exists_layout {text : List Char} {ts : List (List Char)}
    (h : Spaced text ts) : ∃ front pieces, Layout text ts front pieces := by
  induction h with
  | @blank w hw =>
      refine ⟨w, [], rfl, ?_, hw, nofun, .nil⟩
      rw [Piece.write, List.flatMap_nil, List.append_nil]
  | @numeric w t rest ts hw ht hstop _ ih =>
      obtain ⟨front, pieces, hlayout⟩ := ih
      refine ⟨w, _, hlayout.cons hw ?_⟩
      -- without a blank the next numeral would belong to this token
      rintro q hq - hnum rfl
      obtain ⟨later, rfl⟩ := List.head?_eq_some_iff.1 hq
      rw [hlayout.text_eq, Piece.write, List.flatMap_cons, List.nil_append,
        List.append_assoc] at hstop
      exact hnum.not_stops hstop
  | @word w t rest ts hw ht _ _ ih =>
      obtain ⟨front, pieces, hlayout⟩ := ih
      exact ⟨w, _, hlayout.cons hw fun q _ hnum => absurd hnum ht.not_numeric⟩

-- ============================================================ to spacing

/-- A numeric token ends where its gap or the next token begins. -/
theorem stops_write {p : Piece} {pieces : List Piece} (hp : Numeric p.token)
    (hblank : Blank p.gap)
    (hrow : Row ((p :: pieces).map Piece.token))
    (hapart : (p :: pieces).IsChain fun p q =>
      Numeric p.token → Numeric q.token → p.gap ≠ []) :
    Stops (Piece.write p.gap pieces) := by
  refine stops_append hblank.other fun hnil => ?_
  cases pieces with
  | nil => exact nofun
  | cons q pieces =>
      have hq : ¬ Numeric q.token := fun hnum =>
        (List.isChain_cons_cons.1 hapart).1 hp hnum hnil
      have hword : Word q.token :=
        (hrow.kinds q.token (by simp)).resolve_left hq
      rw [List.flatMap_cons, List.append_assoc]
      exact hword.stops

theorem spaced_write {front : List Char} {pieces : List Piece}
    (hfront : Blank front) (hgap : ∀ p ∈ pieces, Blank p.gap)
    (hrow : Row (pieces.map Piece.token))
    (hapart : pieces.IsChain fun p q =>
      Numeric p.token → Numeric q.token → p.gap ≠ []) :
    Spaced (Piece.write front pieces) (pieces.map Piece.token) := by
  induction pieces generalizing front with
  | nil =>
      rw [Piece.write, List.flatMap_nil, List.append_nil]
      exact .blank hfront
  | cons p pieces ih =>
      obtain ⟨hblank, hgap⟩ := List.forall_mem_cons.1 hgap
      obtain ⟨hkind, -, hrest⟩ := row_cons.1 hrow
      have hlater := ih hblank hgap hrest (List.isChain_cons.1 hapart).2
      have hwrite : Piece.write front (p :: pieces)
          = front ++ p.token ++ Piece.write p.gap pieces := by
        simp only [Piece.write, List.flatMap_cons, List.append_assoc]
      rw [hwrite, List.map_cons]
      rcases hkind with hnum | hword
      · exact .numeric hfront hnum (stops_write hnum hblank hrow hapart) hlater
      · exact .word hfront hword (hrow.next_numeric hword) hlater

/-- Spacing is the layout of a row. -/
theorem spaced_iff {text : List Char} {ts : List (List Char)} :
    Spaced text ts
      ↔ Row ts ∧ ∃ front pieces, Layout text ts front pieces := by
  constructor
  · intro h
    exact ⟨h.row, h.exists_layout⟩
  · rintro ⟨hrow, front, pieces, hlayout⟩
    rw [hlayout.text_eq, ← hlayout.tokens]
    rw [← hlayout.tokens] at hrow
    exact spaced_write hlayout.front_blank hlayout.gap_blank hrow hlayout.apart

-- ======================================================== single blanks

theorem blank_space : Blank [' '] := by
  intro c hc
  rw [List.mem_singleton.1 hc]
  decide

/-- A row is spaced by single blanks. -/
theorem Row.spaced_intercalate {ts : List (List Char)} (h : Row ts) :
    Spaced ([' '].intercalate ts) ts := by
  induction ts with
  | nil => exact .blank blank_nil
  | cons t ts ih =>
      obtain ⟨hkind, -, hrest⟩ := row_cons.1 h
      -- what follows the token: nothing, or a blank and the tokens left
      obtain ⟨rest, htext, hstop, hspaced⟩ : ∃ rest,
          [' '].intercalate (t :: ts) = [] ++ t ++ rest ∧ Stops rest
            ∧ Spaced rest ts := by
        cases ts with
        | nil => exact ⟨[], by simp, nofun, .blank blank_nil⟩
        | cons u ts =>
            refine ⟨[' '] ++ [' '].intercalate (u :: ts), ?_,
              stops_append blank_space.other nofun,
              (ih hrest).prepend blank_space⟩
            rw [List.intercalate_cons_cons, List.nil_append, List.append_assoc]
      rw [htext]
      rcases hkind with hnum | hword
      · exact .numeric blank_nil hnum hstop hspaced
      · exact .word blank_nil hword (h.next_numeric hword) hspaced

theorem tokenize_intercalate {tokens : List String}
    (h : Row (tokens.map String.toList)) :
    tokenize (" ".intercalate tokens) = tokens := by
  rw [tokenize_eq_iff, String.toList_intercalate]
  exact h.spaced_intercalate

-- ======================================================= characterisation

/-- A list is the tokens of a text just when it is a row and the text is
a layout of it; so the tokens of a text, with single blanks between them,
are a text with the same tokens. -/
theorem tokenize_eq_iff_layout (text : String) (tokens : List String) :
    (tokenize text = tokens
        ↔ Row (tokens.map String.toList)
          ∧ ∃ front pieces,
            Layout text.toList (tokens.map String.toList) front pieces)
      ∧ tokenize (" ".intercalate (tokenize text)) = tokenize text := by
  refine ⟨tokenize_eq_iff.trans spaced_iff, ?_⟩
  have hspaced := tokenize_eq_iff.1 (Eq.refl (tokenize text))
  exact tokenize_intercalate hspaced.row

/-- Words with blanks inside, and numerals that blanks keep apart. -/
example : tokenize "\t2.5 + - 3 .7)" = ["2.5", "+ -", "3", ".7", ")"] := by
  decide +kernel

end Formula.Token
