/-
A builder at work: any number of calls on a new builder, in any order,
refused ones included.

A `Bench` is the graph that the builder works on, the builder, and the
tokens that it has taken so far.  A call that is refused leaves all three
as they are (`Bench.call`).  `Bench.Sound` is the builder's invariant
together with what only a builder that works alone can say: its places
are those added since it began, in the order in which they were added.
`Bench.Sound.call` is the step, `Bench.exists_sound` the run.
-/
import Formula.Proofs.Builder.Invariant

namespace Formula

/-- A call on a builder. -/
inductive Call where
  | add (token : String)
  | build
deriving DecidableEq

/-- A builder at work. -/
structure Bench where
  graph : Graph
  builder : Builder := {}
  /-- The tokens that were taken, in order. -/
  taken : List String := []

namespace Bench

/-- A new builder on a graph. -/
def new (g : Graph) : Bench := { graph := g }

/-- One call. -/
def call (s : Bench) : Call → Bench
  | .add token =>
      match s.builder.add s.graph token with
      | .ok (g, b, _) => ⟨g, b, s.taken ++ [token]⟩
      | .error _ => s
  | .build =>
      match s.builder.build s.graph with
      | .ok (b, _) => { s with builder := b }
      | .error _ => s

/-- The calls, one after another. -/
def run (s : Bench) (calls : List Call) : Bench := calls.foldl call s

/-- What is true of a builder that works alone on a graph which had
`start` nodes when it began. -/
structure Sound (start : Nat) (s : Bench) (p : Plan) : Prop where
  grown : s.builder.Grown s.graph p
  refs : p.refs = List.range' start s.taken.length
  size : s.graph.size = start + s.taken.length
  expected : s.builder.expected = .value ↔ s.taken.length % 2 = 0

variable {start : Nat} {s : Bench} {p : Plan}

theorem sound_new (g : Graph) : Sound g.size (new g) .vacant :=
  ⟨Builder.grown_new g, rfl, rfl, ⟨fun _ => rfl, fun _ => rfl⟩⟩

-- ============================================================ one call

theorem call_add_ok {token : String} {g : Graph} {b : Builder}
    {splice : Option Splice}
    (h : s.builder.add s.graph token = .ok (g, b, splice)) :
    s.call (.add token) = ⟨g, b, s.taken ++ [token]⟩ := by
  simp only [call, h]

theorem call_add_error {token : String} {e : Error}
    (h : s.builder.add s.graph token = .error e) : s.call (.add token) = s := by
  simp only [call, h]

theorem call_build_ok {b : Builder} {root : Option Ref}
    (h : s.builder.build s.graph = .ok (b, root)) :
    s.call .build = { s with builder := b } := by
  simp only [call, h]

theorem call_build_error {e : Error}
    (h : s.builder.build s.graph = .error e) : s.call .build = s := by
  simp only [call, h]

/-- A token that is taken leaves the bench sound. -/
theorem Sound.advance (h : Sound start s p) {g' : Graph} {b' : Builder}
    {p' : Plan} (hadv : s.builder.Advances s.graph p g' b' p')
    (token : String) : Sound start ⟨g', b', s.taken ++ [token]⟩ p' := by
  have hlen : (s.taken ++ [token]).length = s.taken.length + 1 :=
    List.length_append
  have hsize := h.size
  refine ⟨hadv.grown, ?_, ?_, ?_⟩
  · show p'.refs = List.range' start (s.taken ++ [token]).length
    rw [hadv.refs, h.refs, hsize, hlen, List.range'_concat, Nat.one_mul]
  · show g'.size = start + (s.taken ++ [token]).length
    rw [hadv.size, hlen]
    omega
  · show b'.expected = .value ↔ (s.taken ++ [token]).length % 2 = 0
    have hiff := h.expected
    rw [hadv.expected, hlen]
    cases he : s.builder.expected with
    | value =>
        have heven := hiff.1 he
        exact ⟨fun h => (nomatch h), fun h => by omega⟩
    | operator =>
        have hodd : s.taken.length % 2 ≠ 0 := fun h0 => by
          have hval := hiff.2 h0
          rw [he] at hval
          cases hval
        exact ⟨fun _ => by omega, fun _ => rfl⟩

/-- Every call leaves the bench sound. -/
theorem Sound.call (h : Sound start s p) (c : Call) :
    ∃ p', Sound start (s.call c) p' := by
  cases c with
  | add token =>
      cases h.grown.add_cases token with
      | closed _ hadd | notNumber _ _ _ hadd | notOperator _ _ _ hadd =>
          refine ⟨p, ?_⟩
          rw [call_add_error hadd]
          exact h
      | value x g' b' _ _ _ hadd hadv =>
          refine ⟨p.fill s.graph.size x, ?_⟩
          rw [call_add_ok hadd]
          exact h.advance hadv token
      | operator op g' b' _ _ _ hadd hadv =>
          refine ⟨p.splice s.graph.size op, ?_⟩
          rw [call_add_ok hadd]
          exact h.advance hadv token
  | build =>
      refine ⟨p, ?_⟩
      cases h.grown.build_cases with
      | closed _ hbuild | empty _ _ _ hbuild | trailing _ _ _ _ _ hbuild =>
          rw [call_build_error hbuild]
          exact h
      | built _ _ hbuild =>
          rw [call_build_ok hbuild]
          exact ⟨h.grown.finalize, h.refs, h.size, h.expected⟩

-- ============================================================== the run

theorem Sound.run (h : Sound start s p) (calls : List Call) :
    ∃ p', Sound start (s.run calls) p' := by
  induction calls generalizing s p with
  | nil => exact ⟨p, h⟩
  | cons c calls ih =>
      obtain ⟨p', h'⟩ := h.call c
      exact ih h'

/-- Whatever is called on a new builder, its bench is sound. -/
theorem exists_sound (g : Graph) (calls : List Call) :
    ∃ p, Sound g.size ((new g).run calls) p :=
  (sound_new g).run calls

end Bench

end Formula
