/-
What a worker's calls come to.  `Builder.add` and `Builder.build` compute
the graph and the builder that result, or an error; the worker gets there
write by write.  Wherever they compute a result the worker arrives at it
(`perform_add`).

An error is another matter: a fault can arise after a node was made or a
link was set, and what was written stays.  That a builder's own calls
never come to a fault is for its invariant to say; any other error is
found before the first write, and the desk is as it was
(`Builder.Grown.perform_add`, `perform_build`).
-/
import Formula.Worker
import Formula.Proofs.Builder.Invariant

namespace Formula

-- ========================================================== in sequence

/-- What two steps come to is what the second makes of the first. -/
theorem exists_ok_of_bind {ε α β : Type} {x : Except ε α}
    {f : α → Except ε β} {b : β} (h : x >>= f = .ok b) :
    ∃ a, x = .ok a ∧ f a = .ok b := by
  cases x with
  | error e => cases h
  | ok a => exact ⟨a, rfl, h⟩

/-- Naming an error makes no result. -/
theorem ok_of_mapError {ε ε' α : Type} {x : Except ε α} {f : ε → ε'} {a : α}
    (h : x.mapError f = .ok a) : x = .ok a := by
  cases x with
  | error e => cases h
  | ok b => exact congrArg Except.ok (Except.ok.inj h)

namespace Desk

variable {α β : Type} {d d' : Desk}

/-- Work goes on where the work before it ended. -/
theorem perform_bind {x : Work α} {a : α} (f : α → Work β)
    (h : d.perform x = (.ok a, d')) :
    d.perform (x >>= f) = d'.perform (f a) := by
  show ExceptT.bindCont f (d.perform x).1 (d.perform x).2 = _
  rw [h]
  rfl

/-- Work that ends in an error is not gone on with. -/
theorem perform_bind_error {x : Work α} {e : Error} (f : α → Work β)
    (h : d.perform x = (.error e, d')) :
    d.perform (x >>= f) = (.error e, d') := by
  show ExceptT.bindCont f (d.perform x).1 (d.perform x).2 = _
  rw [h]
  rfl

/-- The desk once a node is made. -/
def made (d : Desk) (c : Content) : Desk :=
  { d with graph := (d.graph.add c).1 }

theorem perform_make (c : Content) (f : Ref → Work β) :
    d.perform (Worker.make c >>= f) = (d.made c).perform (f d.graph.size) :=
  rfl

theorem perform_attach (r : Ref) (side : Side) (child : Ref)
    (f : Unit → Work β) :
    d.perform (Worker.attach r side child >>= f)
      = Desk.perform { d with graph := d.graph.attach r side child } (f ()) :=
  rfl

theorem perform_get (f : Desk → Work β) :
    d.perform (get >>= f) = d.perform (f d) := rfl

/-- The desk once a token is taken: the graph and the builder have
changed, and the log tells how the operator found its place. -/
def advance (d : Desk) (g : Graph) (b : Builder) (splice : Option Splice) :
    Desk where
  graph := g
  log := splice.elim d.log fun s =>
    d.log.say d.worker.logger (.debug s.message)
  worker := { d.worker with builder := b }

end Desk

-- ================================================ what re-linking leaves

namespace Graph

variable {g : Graph}

/-- What adopts is there. -/
theorem exists_of_adopt {g' : Graph} {owner : Option Ref} {side : Side}
    {child : Ref} (h : g.adopt owner side child = .ok g') :
    ∃ r, owner = some r ∧ g' = g.attach r side child := by
  unfold adopt at h
  split at h
  · next r _ =>
      injection h with h
      exact ⟨r, rfl, h.symm⟩
  · cases h

/-- Re-linking leaves every node its operator. -/
theorem operator?_attach (r : Ref) (side : Side) (child x : Ref) :
    (g.attach r side child).operator? x = g.operator? x := by
  have hlink : (g.link r side (some child)).operator? x = g.operator? x := by
    unfold operator? content? link
    by_cases hx : x = r
    · subst hx
      rw [node?_update_self]
      cases g.node? x with
      | none => rfl
      | some n =>
          obtain ⟨content, up⟩ := n
          cases content with
          | operator op left right => cases side <;> rfl
          | value y => rfl
          | foreign => rfl
    · rw [node?_update_of_ne _ hx]
  rw [← hlink]
  unfold attach setParent operator? content?
  by_cases hx : x = child
  · subst hx
    rw [node?_update_self]
    cases (g.link r side (some x)).node? x with
    | none => rfl
    | some n => rfl
  · rw [node?_update_of_ne _ hx]

end Graph

namespace Builder

variable {g : Graph} {b : Builder}

/-- What is displaced has an operator. -/
theorem operator?_of_displaced? {op : Operator} {candidates : List Ref}
    {old : Ref} (h : displaced? g op candidates = .ok (some old)) :
    ∃ o, g.operator? old = some o := by
  induction candidates with
  | nil => cases h
  | cons r later ih =>
      unfold displaced? at h
      by_cases hbinds : (g.operator? r).any (op.rank ≤ ·.rank) = true
      · rw [if_pos hbinds] at h
        obtain ⟨onSpine, -, h⟩ := exists_ok_of_bind h
        cases onSpine with
        | false => exact ih h
        | true =>
            have hold : r = old := by
              injection h with h
              injection h
            subst hold
            obtain ⟨o, ho, -⟩ := (Option.any_eq_true _ _).1 hbinds
            exact ⟨o, ho⟩
      · rw [if_neg hbinds] at h
        exact ih h

/-- Displacing changes no more of the builder than its head. -/
theorem displace_of_placed {g' : Graph} {b' : Builder} {n old : Ref}
    (h : (b.placed n).displace g n old = .ok (g', b')) :
    ∃ b₀, b.displace g n old = .ok (g', b₀) ∧ b' = b₀.placed n := by
  unfold displace at h ⊢
  cases hparent : g.parent? old with
  | none =>
      rw [hparent] at h
      cases h
      exact ⟨_, rfl, rfl⟩
  | some p =>
      rw [hparent] at h
      obtain ⟨g₁, hadopt, h⟩ := exists_ok_of_bind h
      cases h
      refine ⟨b, ?_, rfl⟩
      dsimp only
      rw [hadopt]
      rfl

/-- The three ways in which a builder takes an operator; the node that it
makes for it stands at the end of the graph. -/
theorem addOperator_cases {op : Operator} {g' : Graph} {b' : Builder}
    {note : Option Splice} (h : b.addOperator g op = .ok (g', b', note)) :
    let g₁ := (g.add (.operator (some op) none none)).1
    ∃ last, b.prev = some last ∧
      ((b.head = some last ∧ g' = g₁.attach g.size .left last
          ∧ b' = { b.placed g.size with head := some g.size } ∧ note = none)
        ∨ (∃ old o b₀, b.head ≠ some last
          ∧ displaced? g₁ op b.history = .ok (some old)
          ∧ g₁.operator? old = some o
          ∧ b.displace g₁ g.size old = .ok (g', b₀) ∧ b' = b₀.placed g.size
          ∧ note = (g'.operator? old).map (.displaces op))
        ∨ ∃ g₂, b.head ≠ some last ∧ displaced? g₁ op b.history = .ok none
          ∧ g₁.adopt (g₁.parent? last) .right g.size = .ok g₂
          ∧ g' = g₂.attach g.size .left last ∧ b' = b.placed g.size
          ∧ note = some (.extends op)) := by
  intro g₁
  unfold addOperator at h
  cases hprev : b.prev with
  | none =>
      rw [hprev] at h
      cases h
  | some last =>
      rw [hprev] at h
      refine ⟨last, rfl, ?_⟩
      by_cases hhead : b.head = some last
      · simp only [hhead, if_true] at h
        cases h
        exact .inl ⟨hhead, rfl, rfl, rfl⟩
      · simp only [hhead, if_false] at h
        obtain ⟨found, hfound, h⟩ := exists_ok_of_bind h
        cases found with
        | some old =>
            obtain ⟨o, ho⟩ := operator?_of_displaced? hfound
            obtain ⟨⟨g₂, b₂⟩, hdisplace, h⟩ := exists_ok_of_bind h
            obtain ⟨b₀, hb₀, hb₂⟩ := displace_of_placed hdisplace
            cases h
            exact .inr (.inl ⟨old, o, b₀, hhead, hfound, ho, hb₀, hb₂, rfl⟩)
        | none =>
            obtain ⟨g₂, hadopt, h⟩ := exists_ok_of_bind h
            cases h
            exact .inr (.inr ⟨g₂, hhead, hfound, hadopt, rfl, rfl, rfl⟩)

end Builder

namespace Worker

variable {d : Desk} {g : Graph} {b : Builder}

-- ============================================================= splicing

theorem perform_adopt {owner : Option Ref} {side : Side} {child : Ref}
    (h : d.graph.adopt owner side child = .ok g) :
    d.perform (adopt owner side child) = (.ok (), { d with graph := g }) := by
  unfold adopt
  rw [Desk.perform_get, h]
  rfl

/-- The first value node is put at the top. -/
theorem perform_place_first (node : Ref) (h : d.worker.builder.head = none) :
    d.perform (place node) = (.ok (),
      d.advance d.graph { d.worker.builder with head := some node } none) := by
  unfold place
  rw [Desk.perform_get]
  simp only [h]
  rfl

/-- Every other one is put below what was added last. -/
theorem perform_place_later {node r : Ref}
    (h : d.worker.builder.head = some r)
    (hadopt : d.graph.adopt d.worker.builder.prev .right node = .ok g) :
    d.perform (place node) = (.ok (), d.advance g d.worker.builder none) := by
  unfold place
  rw [Desk.perform_get]
  simp only [h]
  exact perform_adopt hadopt

/-- A number is taken. -/
theorem perform_addValue {x : Float}
    (h : d.worker.builder.addValue d.graph x = .ok (g, b)) :
    d.perform (addValue x)
      = (.ok (), d.advance g { b with expected := .operator } none) := by
  have hplace : ∃ b₀ : Builder, b = { b₀ with prev := some d.graph.size }
      ∧ (d.made (.value x)).perform (place d.graph.size)
        = (.ok (), d.advance g b₀ none) := by
    unfold Builder.addValue at h
    cases hhead : d.worker.builder.head with
    | none =>
        simp only [hhead] at h
        cases h
        exact ⟨_, rfl, perform_place_first _ hhead⟩
    | some r =>
        simp only [hhead] at h
        obtain ⟨g', hadopt, h⟩ := exists_ok_of_bind h
        cases h
        refine ⟨d.worker.builder, ?_, perform_place_later hhead hadopt⟩
        rw [← hhead]
        rfl
  obtain ⟨b₀, rfl, hplaced⟩ := hplace
  unfold addValue
  rw [Desk.perform_make, Desk.perform_bind _ hplaced]
  rfl

/-- A node takes the place of another where the builder's computation lets
it. -/
theorem perform_replace {node old : Ref}
    (h : d.worker.builder.displace d.graph node old = .ok (g, b)) :
    ∃ g', g = g'.attach node .left old
      ∧ (∀ x, g'.operator? x = d.graph.operator? x)
      ∧ d.perform (replace node old) = (.ok (), d.advance g' b none) := by
  unfold Builder.displace at h
  unfold replace
  rw [Desk.perform_get]
  cases hparent : d.graph.parent? old with
  | none =>
      rw [hparent] at h
      cases h
      exact ⟨d.graph, rfl, fun _ => rfl, rfl⟩
  | some p =>
      rw [hparent] at h
      obtain ⟨g', hadopt, h⟩ := exists_ok_of_bind h
      cases h
      obtain ⟨r, -, rfl⟩ := Graph.exists_of_adopt hadopt
      exact ⟨_, rfl, fun x => Graph.operator?_attach r .right node x,
        perform_adopt hadopt⟩

theorem perform_displace {op o : Operator} {node old : Ref}
    (hold : d.graph.operator? old = some o)
    (h : d.worker.builder.displace d.graph node old = .ok (g, b)) :
    d.perform (displace op node old) = (.ok (),
      d.advance g b ((g.operator? old).map (.displaces op))) := by
  obtain ⟨g', rfl, hkept, hreplace⟩ := perform_replace h
  have hop : (g'.attach node .left old).operator? old = some o := by
    rw [Graph.operator?_attach, hkept, hold]
  unfold displace
  rw [Desk.perform_bind _ hreplace, Desk.perform_attach, Desk.perform_get]
  simp only [Desk.advance, hop]
  rfl

theorem perform_extend {op : Operator} {node prev : Ref}
    (h : d.graph.adopt (d.graph.parent? prev) .right node = .ok g) :
    d.perform (extend op node prev)
      = (.ok (), d.advance (g.attach node .left prev) d.worker.builder
        (some (.extends op))) := by
  unfold extend
  rw [Desk.perform_get, Desk.perform_bind _ (perform_adopt h)]
  rfl

/-- The first operator has the only value as left operand. -/
theorem perform_splice_first {op : Operator} {node last : Ref}
    (hprev : d.worker.builder.prev = some last)
    (hhead : d.worker.builder.head = some last) :
    d.perform (splice op node)
      = (.ok (), d.advance (d.graph.attach node .left last)
        { d.worker.builder with head := some node } none) := by
  unfold splice
  rw [Desk.perform_get]
  dsimp only
  rw [if_pos (hhead.trans hprev.symm), hhead]
  rfl

/-- The search decides between the two ways to splice in a later
operator. -/
theorem perform_splice_of_found {op : Operator} {node last : Ref}
    {found : Option Ref} (hprev : d.worker.builder.prev = some last)
    (hhead : d.worker.builder.head ≠ some last)
    (hfound : Builder.displaced? d.graph op d.worker.builder.history
      = .ok found) :
    d.perform (splice op node) = d.perform (match found with
      | some old => displace op node old
      | none => extend op node last) := by
  unfold splice
  rw [Desk.perform_get]
  simp only [hprev, hhead, if_false]
  rw [Desk.perform_get, hfound]
  cases found with
  | some old => rfl
  | none => rfl

/-- An operator is taken. -/
theorem perform_addOperator {op : Operator} {note : Option Splice}
    (h : d.worker.builder.addOperator d.graph op = .ok (g, b, note)) :
    d.perform (addOperator op)
      = (.ok (), d.advance g { b with expected := .value } note) := by
  have hsplice : ∃ b₀ : Builder, b = b₀.placed d.graph.size
      ∧ (d.made (.operator (some op) none none)).perform
        (splice op d.graph.size) = (.ok (), d.advance g b₀ note) := by
    obtain ⟨last, hprev, ⟨hhead, rfl, rfl, rfl⟩
      | ⟨old, o, b₀, hhead, hfound, ho, hdisplace, rfl, rfl⟩
      | ⟨g₂, hhead, hfound, hadopt, rfl, rfl, rfl⟩⟩ :=
        Builder.addOperator_cases h
    · exact ⟨{ d.worker.builder with head := some d.graph.size }, rfl,
        perform_splice_first hprev hhead⟩
    · refine ⟨b₀, rfl, ?_⟩
      rw [perform_splice_of_found (d := d.made _) hprev hhead hfound]
      exact perform_displace ho hdisplace
    · refine ⟨d.worker.builder, rfl, ?_⟩
      rw [perform_splice_of_found (d := d.made _) hprev hhead hfound]
      exact perform_extend hadopt
  obtain ⟨b₀, rfl, hplaced⟩ := hsplice
  unfold addOperator
  rw [Desk.perform_make, Desk.perform_bind _ hplaced]
  rfl

-- =============================================================== calls

/-- What a builder that still takes tokens does with one. -/
theorem perform_add_open {token : String}
    (hf : d.worker.builder.finalized = false) :
    d.perform (add token) = d.perform (do
      take token
      remember fun b => { b with position := b.position + 1 }) := by
  unfold add
  rw [Desk.perform_get, hf]
  rfl

/-- A token is read as what is expected. -/
theorem perform_take (token : String) :
    d.perform (take token) = d.perform (match d.worker.builder.expected with
      | .value =>
          match Literal.read? token with
          | none => throw (.notNumber token d.worker.builder.position)
          | some x => addValue x
      | .operator =>
          match Operator.ofSymbol? token with
          | none => throw (.notOperator token d.worker.builder.position)
          | some op => addOperator op) := rfl

/-- A token that the builder takes is taken at the desk. -/
theorem perform_add {token : String} {note : Option Splice}
    (h : d.worker.builder.add d.graph token = .ok (g, b, note)) :
    d.perform (add token) = (.ok (), d.advance g b note) := by
  unfold Builder.add at h
  cases hf : d.worker.builder.finalized with
  | true =>
      rw [hf] at h
      cases h
  | false =>
      rw [hf] at h
      rw [perform_add_open hf]
      cases he : d.worker.builder.expected with
      | value =>
          rw [he] at h
          cases hread : Literal.read? token with
          | none =>
              rw [hread] at h
              cases h
          | some x =>
              rw [hread] at h
              obtain ⟨⟨g₁, b₁⟩, hadd, h⟩ := exists_ok_of_bind h
              have hvalue := perform_addValue (ok_of_mapError hadd)
              cases h
              refine (Desk.perform_bind _ (Eq.trans ?_ hvalue)).trans rfl
              rw [perform_take, he, hread]
      | operator =>
          rw [he] at h
          cases hread : Operator.ofSymbol? token with
          | none =>
              rw [hread] at h
              cases h
          | some op =>
              rw [hread] at h
              obtain ⟨⟨g₁, b₁, note₁⟩, hadd, h⟩ := exists_ok_of_bind h
              have hop := perform_addOperator (ok_of_mapError hadd)
              cases h
              refine (Desk.perform_bind _ (Eq.trans ?_ hop)).trans rfl
              rw [perform_take, he, hread]

/-- Asking for the formula comes to what the builder computes; an error,
whatever it is, changes nothing. -/
theorem perform_build (d : Desk) :
    d.perform build = match d.worker.builder.build d.graph with
      | .ok (b, root) => (.ok { root }, d.advance d.graph b none)
      | .error e => (.error e, d) := by
  obtain ⟨g, log, ⟨⟨expected, finalized, head, prev, history, position⟩,
    logger⟩⟩ := d
  cases finalized with
  | true => rfl
  | false =>
      cases expected with
      | operator => rfl
      | value =>
          cases head with
          | none => rfl
          | some h =>
              show Desk.perform _ (do
                let op ← present "symbol" (prev.bind g.operator?)
                throw (.trailing op.symbol (position - 1))) = _
              simp only [Builder.build]
              cases prev.bind g.operator? with
              | none => rfl
              | some op => rfl

end Worker

namespace Builder

variable {d : Desk} {p : Plan}

/-- At the desk of a builder that has grown, adding a token comes to what
the builder computes, and a token that is refused changes nothing. -/
theorem Grown.perform_add (h : Grown d.graph d.worker.builder p)
    (token : String) :
    d.perform (Worker.add token)
      = match d.worker.builder.add d.graph token with
        | .ok (g, b, note) => (.ok (), d.advance g b note)
        | .error e => (.error e, d) := by
  cases h.add_cases token with
  | closed hf hadd =>
      rw [hadd, Worker.add, Desk.perform_get, hf]
      rfl
  | notNumber hf he hread hadd =>
      rw [hadd, Worker.perform_add_open hf]
      refine Desk.perform_bind_error _ ?_
      rw [Worker.perform_take, he, hread]
      rfl
  | notOperator hf he hread hadd =>
      rw [hadd, Worker.perform_add_open hf]
      refine Desk.perform_bind_error _ ?_
      rw [Worker.perform_take, he, hread]
      rfl
  | value x g' b' _ _ _ hadd _ =>
      rw [hadd, Worker.perform_add hadd]
  | operator op g' b' _ _ _ hadd _ =>
      rw [hadd, Worker.perform_add hadd]

end Builder

end Formula
