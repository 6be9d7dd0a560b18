/-
The fold by stacks, turn by turn.  A turn takes the top task off the one
stack and puts a result on the other, or two operands and an operator on
the first.  Nothing in it checks that there are two results when an
operator is due.

What makes it so is a count that no turn changes (`Turn.yield?_eq`): how
many results there will be when all tasks are done, each visit adding one
and each operator making one of two.  It is one at the start, hence in
every state of the loop, and a state in which results run short has no
such count.  No graph is excluded, and no way of folding.
-/
import Formula.Proofs.Graph.Fold
import Mathlib.Logic.Relation

namespace Formula.Graph

section
variable {α : Type} (leaf : Float → α) (join : Operator → α → α → α)

/-- One turn of the loop on its two stacks. -/
inductive Turn (g : Graph) : List Task × List α → List Task × List α → Prop
  | value {n : Nat} {r : Option Ref} {x : Float} {tasks : List Task}
      {results : List α} (h : r.bind g.content? = some (.value x)) :
      Turn g (.visit n r :: tasks, results) (tasks, leaf x :: results)
  | expand {n : Nat} {r left right : Option Ref} {op : Option Operator}
      {tasks : List Task} {results : List α}
      (h : r.bind g.content? = some (.operator op left right)) :
      Turn g (.visit (n + 1) r :: tasks, results)
        (.visit n left :: .visit n right :: .combine op :: tasks, results)
  | combine {o : Operator} {x y : α} {tasks : List Task} {rest : List α} :
      Turn g (.combine (some o) :: tasks, y :: x :: rest)
        (tasks, join o x y :: rest)

/-- What the loop can come to from its start. -/
def Runs (g : Graph) (r : Option Ref) (tasks : List Task) (results : List α) :
    Prop :=
  Relation.ReflTransGen (Turn leaf join g) ([.visit g.size r], [])
    (tasks, results)

end

/-- There are two results where an operator is due, and one when no task
is left. -/
structure Supplied {α : Type} (tasks : List Task) (results : List α) :
    Prop where
  combine : ∀ op later, tasks = .combine op :: later → 2 ≤ results.length
  done : tasks = [] → results.length = 1

/-- How many results there will be, if they do not run short before. -/
def yield? : List Task → Nat → Option Nat
  | [], k => some k
  | .visit _ _ :: tasks, k => yield? tasks (k + 1)
  | .combine _ :: tasks, k + 2 => yield? tasks (k + 1)
  | .combine _ :: _, _ => none

variable {α : Type} {leaf : Float → α} {join : Operator → α → α → α}
variable {g : Graph} {r : Option Ref} {s s' : List Task × List α}
variable {tasks : List Task} {results : List α}

-- ============================================================= one turn

/-- What the loop comes to is what it comes to after a turn. -/
theorem Turn.drain_eq (h : Turn leaf join g s s') :
    g.drain leaf join s.1 s.2 = g.drain leaf join s'.1 s'.2 := by
  cases h with
  | value h =>
      dsimp only
      rw [drain, h]
  | expand h =>
      dsimp only
      rw [drain, h]
  | combine =>
      dsimp only
      rw [drain]

/-- The turns are all that the loop does: where tasks are left it takes
one, or stops for a defect. -/
theorem turn_or_stops (tasks : List Task) (results : List α) :
    tasks = [] ∨ (∃ next, Turn leaf join g (tasks, results) next)
      ∨ ∃ d, g.drain leaf join tasks results = .error d := by
  rcases tasks with - | ⟨⟨n, r⟩ | op, tasks⟩
  · exact .inl rfl
  · refine .inr ?_
    rcases hr : r.bind g.content? with - | (x | ⟨op, left, right⟩ | kind)
    · exact .inr ⟨.missing, by rw [drain, hr]⟩
    · exact .inl ⟨_, .value hr⟩
    · cases n with
      | zero => exact .inr ⟨.endless, by rw [drain, hr]⟩
      | succ n => exact .inl ⟨_, .expand hr⟩
    · exact .inr ⟨.foreign kind, by rw [drain, hr]⟩
  · refine .inr ?_
    rcases results with - | ⟨y, - | ⟨x, rest⟩⟩
    · exact .inr ⟨.underflow, by rw [drain]; rintro _ _ _ ⟨⟩⟩
    · exact .inr ⟨.underflow, by rw [drain]; rintro _ _ _ ⟨⟩⟩
    · cases op with
      | none => exact .inr ⟨.bare, by rw [drain]⟩
      | some o => exact .inl ⟨_, .combine⟩

theorem Turn.yield?_eq (h : Turn leaf join g s s') :
    yield? s'.1 s'.2.length = yield? s.1 s.2.length := by
  cases h with
  | value h => rfl
  | expand h => rfl
  | combine => rfl

theorem supplied_of_yield? (h : yield? tasks results.length = some 1) :
    Supplied tasks results where
  combine := by
    rintro op later rfl
    match results, h with
    | _ :: _ :: rest, _ => exact Nat.le_add_left 2 rest.length
  done := by
    rintro rfl
    exact Option.some.inj h

-- ============================================================ all turns

theorem run_kept (h : Relation.ReflTransGen (Turn leaf join g) s s') :
    yield? s'.1 s'.2.length = yield? s.1 s.2.length
      ∧ g.drain leaf join s.1 s.2 = g.drain leaf join s'.1 s'.2 := by
  induction h with
  | refl => exact ⟨rfl, rfl⟩
  | tail _ hturn ih =>
      exact ⟨hturn.yield?_eq.trans ih.1, ih.2.trans hturn.drain_eq⟩

/-- In every state of the loop there are as many results as it wants, it
still comes to what it came to at its start, and it goes on by a turn
until it ends or stops. -/
theorem Runs.supplied (h : Runs leaf join g r tasks results) :
    Supplied tasks results
      ∧ g.drain leaf join [.visit g.size r] []
        = g.drain leaf join tasks results
      ∧ (tasks = [] ∨ (∃ next, Turn leaf join g (tasks, results) next)
        ∨ ∃ d, g.drain leaf join tasks results = .error d) := by
  obtain ⟨hyield, hdrain⟩ := run_kept h
  exact ⟨supplied_of_yield? hyield, hdrain, turn_or_stops tasks results⟩

end Formula.Graph
