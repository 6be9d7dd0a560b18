/-
What the fold by stacks comes to.  It is the fold by recursion of a
machine on which calls can be nested without limit (`foldDeep`): left
operand, right operand, operator, and nothing to give up for but the
allowance of links.  A visit on the stack of tasks comes to what this
recursion comes to: its result is put on the stack of results, or its
defect ends the work (`drain_visit`).  The statement is about any tasks
below the visit and any results below its own, because that is where the
visits of the operands find themselves.

No graph is excluded: with missing operands, bare operators or cycles
the two report the same defect.

# Where there is a limit

A fold that may nest only so many calls settles on a result (`Settles`)
if with too few calls it gives up, and with enough of them comes to that
result.  This goes from the two operands to the operator node: the fold
of an operand that stops settles the matter (`Settles.bind_error`), one
that has a result leaves it to what follows (`Settles.bind_ok`), and the
node itself is one call more (`Settles.operator`).
-/
import Formula.Graph.Fold

namespace Formula.Graph

/-- The fold by recursion along at most `n` links, however deep its calls
are nested. -/
def foldDeep {α : Type} (leaf : Float → α) (join : Operator → α → α → α)
    (g : Graph) : Nat → Option Ref → Except Defect α
  | n, r =>
    match r.bind g.content? with
    | none => .error .missing
    | some (.value x) => .ok (leaf x)
    | some (.foreign kind) => .error (.foreign kind)
    | some (.operator op left right) =>
      match n with
      | 0 => .error .endless
      | n + 1 => do
        let x ← foldDeep leaf join g n left
        let y ← foldDeep leaf join g n right
        match op with
        | none => .error .bare
        | some o => .ok (join o x y)

variable {α : Type} {leaf : Float → α} {join : Operator → α → α → α} {g : Graph}

/-- A visit leaves the result of the recursion on top. -/
theorem drain_visit (n : Nat) (r : Option Ref) (tasks : List Task)
    (results : List α) :
    g.drain leaf join (.visit n r :: tasks) results
      = g.foldDeep leaf join n r >>= fun x =>
          g.drain leaf join tasks (x :: results) := by
  induction n generalizing r tasks results with
  | zero =>
      rw [drain, foldDeep]
      rcases r.bind g.content? with - | (x | ⟨op, left, right⟩ | kind)
      · rfl
      · rfl
      · rfl
      · rfl
  | succ n ih =>
      rw [drain, foldDeep]
      rcases r.bind g.content? with - | (x | ⟨op, left, right⟩ | kind)
      · rfl
      · rfl
      · show g.drain leaf join (.visit n left :: .visit n right :: _) results = _
        rw [ih]
        show _ = (g.foldDeep leaf join n left >>= _) >>= _
        cases g.foldDeep leaf join n left with
        | error d => rfl
        | ok x =>
            show g.drain leaf join (.visit n right :: _) _
              = (g.foldDeep leaf join n right >>= _) >>= _
            rw [ih]
            cases g.foldDeep leaf join n right with
            | error d => rfl
            | ok y =>
                -- the right result is on top, as the combination wants it
                show g.drain leaf join (.combine op :: tasks)
                  (y :: x :: results) = _
                cases op with
                | none => simp only [drain]; rfl
                | some o => simp only [drain]; rfl
      · rfl

theorem fold_eq_foldDeep (r : Option Ref) :
    g.fold leaf join r = g.foldDeep leaf join g.size r := by
  unfold fold
  rw [drain_visit]
  cases g.foldDeep leaf join g.size r with
  | error d => rfl
  | ok x =>
      show (g.drain leaf join [] [x] >>= _) = _
      simp only [drain]
      rfl

-- ============================================================= settling

/-- With the calls, or more, it comes to the result, and with fewer it
gives up. -/
def Settles {β : Type} (f : Nat → Except Defect β) (calls : Nat)
    (result : Except Defect β) : Prop :=
  ∀ n, f n = if calls ≤ n then result else .error .tooDeep

variable {β : Type} {f : Nat → Except Defect α} {k : α → Nat → Except Defect β}
variable {result : Except Defect β} {x : α} {a b : Nat}

/-- What needs no calls is settled at once. -/
theorem settles_zero {f : Nat → Except Defect β} (h : ∀ n, f n = result) :
    Settles f 0 result := fun n => (h n).trans (if_pos (Nat.zero_le n)).symm

theorem Settles.bind_error {d : Defect} (h : Settles f a (.error d)) :
    Settles (fun n => f n >>= fun x => k x n) a (.error d) := by
  intro n
  dsimp only
  rw [h n]
  split
  · rfl
  · rfl

theorem Settles.bind_ok (h : Settles f a (.ok x))
    (h' : Settles (k x) b result) :
    Settles (fun n => f n >>= fun x => k x n) (max a b) result := by
  intro n
  dsimp only
  rw [h n]
  by_cases hn : a ≤ n
  · have hmax : max a b ≤ n ↔ b ≤ n := by omega
    rw [if_pos hn]
    show k x n = _
    rw [h' n]
    simp only [hmax]
  · rw [if_neg hn, if_neg (by omega)]
    rfl

/-- The fold of an operator node is one call more than what it is made
of. -/
theorem Settles.operator {c : Overhead} {r left right : Option Ref}
    {op : Option Operator} {result : Except Defect α}
    (hr : r.bind g.content? = some (.operator op left right))
    (h : Settles (fun n => do
      let x ← g.foldRec leaf join c n left
      let y ← g.foldRec leaf join c n right
      match op with
      | none => .error .bare
      | some o =>
        if c.applying ≤ n then .ok (join o x y) else .error .tooDeep) a result) :
    Settles (fun n => g.foldRec leaf join c n r) (a + 1) result := by
  intro n
  show g.foldRec leaf join c n r = _
  obtain _ | n := n
  · rw [foldRec, hr, if_neg (by omega)]
  · rw [foldRec, hr]
    refine (h n).trans ?_
    simp only [Nat.add_le_add_iff_right]

end Formula.Graph
