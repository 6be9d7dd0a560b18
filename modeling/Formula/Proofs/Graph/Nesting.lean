/-
The fold by recursion where calls can be nested only so deep, on graphs
whose paths end.  There is a number of calls that it needs below a place
(`Within.exists_calls`): with fewer it gives up, and with as many it comes
to what it would come to without a limit, be it a result or a defect.

On a tree the number is known (`Tree.calls`).  Elsewhere it depends on
where the fold stops, since what comes after the first defect is not
called for any more; but it is never more than a call for every node on
the longest path, and the ones that are due at its end.
-/
import Formula.Equation
import Formula.Proofs.Graph.Acyclic
import Formula.Proofs.Graph.Fold

namespace Formula.Graph

variable {α : Type} (leaf : Float → α) (join : Operator → α → α → α)
variable {g : Graph} {m : Nat} {r : Option Ref}

/-- Along paths that end the fold by recursion settles on what it comes to
without a limit. -/
theorem Within.exists_calls (c : Overhead) (h : g.Within m r) :
    ∃ calls, (∀ k, g.Within k r → calls ≤ k + max c.reading c.applying)
      ∧ Settles (fun n => g.foldRec leaf join c n r) calls
        (g.foldDeep leaf join m r) := by
  induction m generalizing r with
  | zero =>
      refine ⟨0, fun _ _ => Nat.zero_le _, settles_zero fun n => ?_⟩
      rw [foldRec, foldDeep, h.content?_zero]
  | succ m ih =>
      rcases hr : r.bind g.content? with - | (x | ⟨op, left, right⟩ | kind)
      · refine ⟨0, fun _ _ => Nat.zero_le _, settles_zero fun n => ?_⟩
        rw [foldRec, foldDeep, hr]
      · refine ⟨c.reading, fun _ _ => by omega, fun n => ?_⟩
        show g.foldRec leaf join c n r = _
        rw [foldRec, foldDeep, hr]
      · obtain ⟨hleft, hright⟩ := h.operands hr
        obtain ⟨a, hale, ha⟩ := ih hleft
        obtain ⟨b, hble, hb⟩ := ih hright
        have hbound : ∀ calls, calls ≤ max a (max b c.applying) →
            ∀ k, g.Within k r → calls + 1 ≤ k + max c.reading c.applying := by
          intro calls hcalls k hk
          obtain _ | k := k
          · cases hk.content?_zero.symm.trans hr
          · have hak := hale k (hk.operands hr).1
            have hbk := hble k (hk.operands hr).2
            omega
        rw [foldDeep, hr]
        dsimp only
        -- the first of left operand, right operand and operator that has a
        -- defect settles the node
        cases hx : g.foldDeep leaf join m left with
        | error d =>
            rw [hx] at ha
            exact ⟨a + 1, hbound a (by omega), .operator hr ha.bind_error⟩
        | ok x =>
            rw [hx] at ha
            cases hy : g.foldDeep leaf join m right with
            | error d =>
                rw [hy] at hb
                exact ⟨max a b + 1, hbound _ (by omega),
                  .operator hr (ha.bind_ok hb.bind_error)⟩
            | ok y =>
                rw [hy] at hb
                cases op with
                | none =>
                    exact ⟨max a (max b 0) + 1, hbound _ (by omega), .operator hr
                      (ha.bind_ok (hb.bind_ok (settles_zero fun _ => rfl)))⟩
                | some o =>
                    exact ⟨_, hbound _ (Nat.le_refl _),
                      .operator hr (ha.bind_ok (hb.bind_ok fun _ => rfl))⟩
      · refine ⟨0, fun _ _ => Nat.zero_le _, settles_zero fun n => ?_⟩
        rw [foldRec, foldDeep, hr]

-- ============================================================ evaluation

/-- With enough calls the evaluation by recursion comes to what the one by
stacks comes to, but that it asks for other parts. -/
theorem Within.exists_calls_evaluate (c : Overhead) (h : g.Within g.size r) :
    ∃ calls, (∀ k, g.Within k r → calls ≤ k + max c.reading c.applying)
      ∧ ∀ limit, g.evaluateQuietly c limit r
        = if calls ≤ limit
          then (g.evaluate r).mapError fun d =>
            .fault (d.fault "evaluate" "apply")
          else .error (.fault .tooDeep) := by
  obtain ⟨calls, hle, hsettles⟩ :=
    h.exists_calls id Operator.apply c
  refine ⟨calls, hle, fun limit => ?_⟩
  have hrec : g.evaluateRec c limit r = _ := hsettles limit
  unfold evaluateQuietly evaluate
  rw [hrec, fold_eq_foldDeep]
  split
  · rfl
  · rfl

end Formula.Graph
