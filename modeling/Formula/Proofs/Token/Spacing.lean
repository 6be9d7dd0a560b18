/-
How a text is spaced.  The scan cuts a text into maximal runs and trims
them; what it finds can be said without runs.  A text is its tokens with
blanks around them (`Spaced`): numeric tokens, and words, which are all
the others.  Two numeric tokens have a blank between them, or they would
be one run, and two words never follow each other, blanks or not, since
nothing but a numeral ends a run of other characters.

# The two directions

Where a text is spaced, the scan finds the tokens (`Spaced.scan_eq`): by
induction over the tokens, cutting the text at a change of run.  And
every text is spaced somehow (`exists_spaced`): by induction over the
characters, the first of which is a blank, begins a token, or extends
the one that follows.  Together they are `scan_eq_iff`.
-/
import Formula.Token
import Mathlib.Data.List.SplitBy
import Mathlib.Data.List.TakeWhile

namespace Formula.Token

open Text

-- ======================================================= the vocabulary

/-- Blanks only. -/
def Blank (w : List Char) : Prop := ∀ c ∈ w, isBlank c = true

/-- A token of numerals. -/
def Numeric (t : List Char) : Prop := t ≠ [] ∧ ∀ c ∈ t, isNumeral c = true

/-- A token of other characters: no blank at either end. -/
structure Word (t : List Char) : Prop where
  ne_nil : t ≠ []
  other : ∀ c ∈ t, isNumeral c = false
  head : ∀ c ∈ t.head?, isBlank c = false
  last : ∀ c ∈ t.getLast?, isBlank c = false

/-- No numeral comes first: a numeric token before this text ends where
the text begins. -/
def Stops (text : List Char) : Prop := ∀ c ∈ text.head?, isNumeral c = false

/-- A text is its tokens, with blanks around them. -/
inductive Spaced : List Char → List (List Char) → Prop
  | blank {w : List Char} (hw : Blank w) : Spaced w []
  | numeric {w t rest : List Char} {ts : List (List Char)} (hw : Blank w)
      (ht : Numeric t) (hstop : Stops rest) (h : Spaced rest ts) :
      Spaced (w ++ t ++ rest) (t :: ts)
  | word {w t rest : List Char} {ts : List (List Char)} (hw : Blank w)
      (ht : Word t) (hnext : ∀ t' ∈ ts.head?, Numeric t')
      (h : Spaced rest ts) :
      Spaced (w ++ t ++ rest) (t :: ts)

-- ============================================================ characters

/-- No blank is a numeral. -/
theorem isNumeral_of_isBlank {c : Char} (h : isBlank c = true) :
    isNumeral c = false := by
  cases hnum : isNumeral c with
  | false => rfl
  | true =>
      simp only [isNumeral, Char.isDigit, Bool.or_eq_true, Bool.and_eq_true,
        decide_eq_true_eq, beq_iff_eq] at hnum
      simp only [isBlank, blanks, List.any_cons, List.any_nil, Bool.or_false,
        Bool.or_eq_true, Bool.and_eq_true, decide_eq_true_eq] at h
      have hrange : c.toNat = 46 ∨ 48 ≤ c.toNat ∧ c.toNat ≤ 57 := by
        rcases hnum with ⟨hlow, hhigh⟩ | rfl
        · exact Or.inr ⟨hlow, hhigh⟩
        · exact Or.inl rfl
      omega

theorem isBlank_of_isNumeral {c : Char} (h : isNumeral c = true) :
    isBlank c = false := by
  cases hblank : isBlank c with
  | false => rfl
  | true =>
      rw [isNumeral_of_isBlank hblank] at h
      cases h

theorem Blank.append {w w' : List Char} (h : Blank w) (h' : Blank w') :
    Blank (w ++ w') := by
  intro c hc
  rcases List.mem_append.1 hc with hc | hc
  · exact h c hc
  · exact h' c hc

theorem blank_nil : Blank [] := fun _ hc => nomatch hc

theorem Blank.other {w : List Char} (h : Blank w) :
    ∀ c ∈ w, isNumeral c = false := fun c hc => isNumeral_of_isBlank (h c hc)

theorem stops_append {u text : List Char} (h : ∀ c ∈ u, isNumeral c = false)
    (htext : u = [] → Stops text) : Stops (u ++ text) := by
  cases u with
  | nil => exact htext rfl
  | cons c u =>
      intro d hd
      injection hd with hd
      subst hd
      exact h c (List.mem_cons_self ..)

theorem word_singleton {c : Char} (hc : isNumeral c = false)
    (hblank : isBlank c = false) : Word [c] := by
  constructor
  · simp
  · simp [hc]
  · simp [hblank]
  · simp [hblank]

theorem Word.after_blank {w t : List Char} (ht : Word t) (hw : Blank w) :
    ∀ c ∈ w ++ t, isNumeral c = false := by
  intro c hc
  rcases List.mem_append.1 hc with hc | hc
  · exact hw.other c hc
  · exact ht.other c hc

/-- A word and the blanks around it hold no numeral. -/
theorem Word.padded {w t w' : List Char} (ht : Word t) (hw : Blank w)
    (hw' : Blank w') : ∀ c ∈ w ++ t ++ w', isNumeral c = false := by
  intro c hc
  rcases List.mem_append.1 hc with hc | hc
  · exact ht.after_blank hw c hc
  · exact hw'.other c hc

-- ============================================================== trimming

theorem dropWhile_blank {w t : List Char} (hw : Blank w)
    (ht : ∀ c ∈ t.head?, isBlank c = false) :
    (w ++ t).dropWhile isBlank = t := by
  rw [List.dropWhile_append_of_pos hw]
  cases t with
  | nil => rfl
  | cons c t =>
      rw [List.dropWhile_cons_of_neg]
      rw [ht c rfl]
      exact Bool.false_ne_true

/-- Trimming takes the blanks away and nothing else. -/
theorem trim_padded {w t w' : List Char} (hw : Blank w) (hw' : Blank w')
    (hne : t ≠ []) (hhead : ∀ c ∈ t.head?, isBlank c = false)
    (hlast : ∀ c ∈ t.getLast?, isBlank c = false) :
    trim (w ++ t ++ w') = t := by
  have hfront : ∀ c ∈ (t ++ w').head?, isBlank c = false := by
    intro c hc
    rw [List.head?_append_of_ne_nil _ hne] at hc
    exact hhead c hc
  have hback : ∀ c ∈ t.reverse.head?, isBlank c = false := by
    rw [List.head?_reverse]
    exact hlast
  have hrev : Blank w'.reverse := fun c hc => hw' c (List.mem_reverse.1 hc)
  unfold trim
  rw [List.append_assoc, dropWhile_blank hw hfront, List.reverse_append,
    dropWhile_blank hrev hback, List.reverse_reverse]

theorem trim_blank {w : List Char} (hw : Blank w) : trim w = [] := by
  unfold trim
  rw [List.dropWhile_eq_nil_iff.2 hw]
  rfl

-- ============================================================== one run

/-- A change of run is a place to cut. -/
theorem scan_append {text text' : List Char}
    (h : ∀ c ∈ text.getLast?, ∀ d ∈ text'.head?, isNumeral c ≠ isNumeral d) :
    scan (text ++ text') = scan text ++ scan text' := by
  unfold scan
  rw [List.splitBy_append, List.map_append, List.filter_append]
  intro c hc d hd
  exact beq_eq_false_iff_ne.2 (h c hc d hd)

/-- What does not change is one run. -/
theorem scan_run {text : List Char} {b : Bool} (hne : text ≠ [])
    (h : ∀ c ∈ text, isNumeral c = b) :
    scan text = [trim text].filter (!·.isEmpty) := by
  have hchain : text.IsChain fun c d => sameRun c d = true := by
    refine (List.pairwise_of_forall_mem_list fun c hc d hd => ?_).isChain
    unfold sameRun
    rw [h c hc, h d hd]
    exact beq_self_eq_true b
  unfold scan
  rw [List.splitBy_of_isChain hne hchain]
  rfl

theorem scan_blank {w : List Char} (hw : Blank w) : scan w = [] := by
  cases w with
  | nil => rfl
  | cons c w =>
      rw [scan_run (List.cons_ne_nil c w) hw.other, trim_blank hw]
      rfl

theorem filter_ne_nil {t : List Char} (h : t ≠ []) :
    [t].filter (!·.isEmpty) = [t] := by
  cases t with
  | nil => exact absurd rfl h
  | cons c t => rfl

theorem scan_numeric {t : List Char} (ht : Numeric t) : scan t = [t] := by
  have hedge : ∀ c ∈ t, isBlank c = false := fun c hc =>
    isBlank_of_isNumeral (ht.2 c hc)
  have htrim : trim t = t := by
    have h := trim_padded blank_nil blank_nil ht.1
      (fun c hc => hedge c (List.mem_of_mem_head? hc))
      (fun c hc => hedge c (List.mem_of_mem_getLast? hc))
    rwa [List.nil_append, List.append_nil] at h
  rw [scan_run ht.1 ht.2, htrim, filter_ne_nil ht.1]

theorem scan_word {w t w' : List Char} (hw : Blank w) (ht : Word t)
    (hw' : Blank w') : scan (w ++ t ++ w') = [t] := by
  have hne : w ++ t ++ w' ≠ [] := by
    simp [ht.ne_nil]
  rw [scan_run hne (ht.padded hw hw'),
    trim_padded hw hw' ht.ne_nil ht.head ht.last, filter_ne_nil ht.ne_nil]

-- ====================================================== all the tokens

/-- Blanks in front change nothing. -/
theorem Spaced.prepend {w text : List Char} {ts : List (List Char)}
    (hw : Blank w) (h : Spaced text ts) : Spaced (w ++ text) ts := by
  cases h with
  | blank hw' => exact .blank (hw.append hw')
  | @numeric w' t rest ts hw' ht hstop h =>
      rw [← List.append_assoc, ← List.append_assoc]
      exact .numeric (hw.append hw') ht hstop h
  | @word w' t rest ts hw' ht hnext h =>
      rw [← List.append_assoc, ← List.append_assoc]
      exact .word (hw.append hw') ht hnext h

/-- A numeric token is cut off from what is before and after it. -/
theorem scan_numeric_append {w t rest : List Char}
    (hw : ∀ c ∈ w, isNumeral c = false) (ht : Numeric t)
    (hstop : Stops rest) :
    scan (w ++ t ++ rest) = scan w ++ t :: scan rest := by
  have hbefore : scan (w ++ (t ++ rest)) = scan w ++ scan (t ++ rest) := by
    refine scan_append fun c hc d hd => ?_
    rw [List.head?_append_of_ne_nil _ ht.1] at hd
    rw [hw c (List.mem_of_mem_getLast? hc), ht.2 d (List.mem_of_mem_head? hd)]
    exact Bool.false_ne_true
  have hafter : scan (t ++ rest) = scan t ++ scan rest := by
    refine scan_append fun c hc d hd => ?_
    rw [ht.2 c (List.mem_of_mem_getLast? hc), hstop d hd]
    exact Bool.false_ne_true.symm
  rw [List.append_assoc, hbefore, hafter, scan_numeric ht]
  rfl

/-- The scan finds the tokens of a spaced text. -/
theorem Spaced.scan_eq {text : List Char} {ts : List (List Char)}
    (h : Spaced text ts) : scan text = ts := by
  induction h with
  | blank hw => exact scan_blank hw
  | numeric hw ht hstop _ ih =>
      rw [scan_numeric_append hw.other ht hstop, scan_blank hw, ih]
      rfl
  | @word w t rest ts hw ht hnext h ih =>
      -- the word's run goes on to the numeric token after it, if any
      cases h with
      | blank hw' => exact scan_word hw ht hw'
      | @numeric w' t' rest' ts' hw' ht' hstop h' =>
          rw [scan_numeric_append hw'.other ht' hstop, scan_blank hw'] at ih
          rw [← List.append_assoc, ← List.append_assoc,
            scan_numeric_append (ht.padded hw hw') ht' hstop,
            scan_word hw ht hw']
          exact congrArg (t :: ·) ih
      | word _ ht' _ _ =>
          obtain ⟨c, t', rfl⟩ := List.exists_cons_of_ne_nil ht'.ne_nil
          have hnum := (hnext _ rfl).2 c (List.mem_cons_self ..)
          rw [ht'.other c (List.mem_cons_self ..)] at hnum
          cases hnum

-- ================================================ one character in front

/-- A numeral in front is a token by itself, or extends a numeric token
that follows at once. -/
theorem Spaced.cons_numeral {c : Char} {text : List Char}
    {ts : List (List Char)} (hc : isNumeral c = true) (h : Spaced text ts) :
    ∃ ts', Spaced (c :: text) ts' := by
  have hnum : Numeric [c] := by
    refine ⟨List.cons_ne_nil _ _, fun d hd => ?_⟩
    rw [List.mem_singleton.1 hd]
    exact hc
  by_cases hstop : Stops text
  · exact ⟨[c] :: ts, .numeric blank_nil hnum hstop h⟩
  · cases h with
    | blank hw =>
        exact absurd (fun d hd => hw.other d (List.mem_of_mem_head? hd)) hstop
    | @numeric w t rest ts hw ht hrest h =>
        cases w with
        | nil =>
            have hmore : Numeric (c :: t) :=
              ⟨List.cons_ne_nil c t, List.forall_mem_cons.2 ⟨hc, ht.2⟩⟩
            exact ⟨(c :: t) :: ts,
              .numeric (t := c :: t) blank_nil hmore hrest h⟩
        | cons b w =>
            rw [List.append_assoc] at hstop
            exact absurd (stops_append hw.other nofun) hstop
    | @word w t rest ts hw ht hnext h =>
        refine absurd (stops_append (ht.after_blank hw) fun hnil => ?_) hstop
        exact absurd (List.append_eq_nil_iff.1 hnil).2 ht.ne_nil

/-- Any other character that is no blank is a word by itself, or extends
the word that comes next. -/
theorem Spaced.cons_other {c : Char} {text : List Char}
    {ts : List (List Char)} (hc : isNumeral c = false)
    (hblank : isBlank c = false) (h : Spaced text ts) :
    ∃ ts', Spaced (c :: text) ts' := by
  have hword := word_singleton hc hblank
  cases h with
  | blank hw =>
      exact ⟨[[c]], .word (t := [c]) blank_nil hword nofun (.blank hw)⟩
  | @numeric w t rest ts hw ht hrest h =>
      have hnext : ∀ t' ∈ (t :: ts).head?, Numeric t' := by
        intro t' ht'
        rwa [← Option.some.inj ht']
      exact ⟨[c] :: t :: ts,
        .word (t := [c]) blank_nil hword hnext (.numeric hw ht hrest h)⟩
  | @word w t rest ts hw ht hnext h =>
      have hmore : Word (c :: (w ++ t)) := by
        refine ⟨List.cons_ne_nil _ _, ?_, ?_, ?_⟩
        · exact List.forall_mem_cons.2 ⟨hc, ht.after_blank hw⟩
        · intro d hd
          rwa [← Option.some.inj hd]
        · intro d hd
          rw [← List.cons_append,
            List.getLast?_append_of_ne_nil _ ht.ne_nil] at hd
          exact ht.last d hd
      exact ⟨(c :: (w ++ t)) :: ts,
        .word (t := c :: (w ++ t)) blank_nil hmore hnext h⟩

/-- Every text is spaced somehow. -/
theorem exists_spaced (text : List Char) : ∃ ts, Spaced text ts := by
  induction text with
  | nil => exact ⟨[], .blank blank_nil⟩
  | cons c text ih =>
      obtain ⟨ts, h⟩ := ih
      cases hblank : isBlank c with
      | true =>
          have hw : Blank [c] := by
            intro d hd
            rwa [List.mem_singleton.1 hd]
          exact ⟨ts, h.prepend hw⟩
      | false =>
          cases hc : isNumeral c with
          | true => exact h.cons_numeral hc
          | false => exact h.cons_other hc hblank

-- ========================================================= the two agree

/-- The tokens of a text are those that it is spaced by. -/
theorem scan_eq_iff {text : List Char} {ts : List (List Char)} :
    scan text = ts ↔ Spaced text ts := by
  constructor
  · intro h
    obtain ⟨ts', h'⟩ := exists_spaced text
    rw [← h, h'.scan_eq]
    exact h'
  · exact Spaced.scan_eq

theorem tokenize_eq_iff {text : String} {tokens : List String} :
    tokenize text = tokens
      ↔ Spaced text.toList (tokens.map String.toList) := by
  rw [← scan_eq_iff]
  unfold tokenize
  constructor
  · intro h
    rw [← h]
    simp [Function.comp_def]
  · intro h
    rw [h]
    simp [Function.comp_def]

-- ============================================================ inversion

theorem Spaced.blank_of_nil {text : List Char} (h : Spaced text []) :
    Blank text := by
  cases h with
  | blank hw => exact hw

/-- A spaced text begins with blanks and its first token. -/
theorem Spaced.split {text t : List Char} {ts : List (List Char)}
    (h : Spaced text (t :: ts)) :
    ∃ w rest, text = w ++ t ++ rest ∧ Blank w ∧ Spaced rest ts := by
  cases h with
  | @numeric w t rest ts hw _ _ h => exact ⟨w, rest, rfl, hw, h⟩
  | @word w t rest ts hw _ _ h => exact ⟨w, rest, rfl, hw, h⟩

end Formula.Token
