/-
What validation finds, and what it means that it finds nothing.

# Where the graph stands by a plan

The search meets every place of the plan once and has something to say of
vacancies only (`Stands.violations_eq`): a complete plan gives nothing, an
open one the right operand that is missing at the end of its edge.

# Where nothing is known of the graph

The checks are local: an operand is there, it points back, a node has not
been seen before.  Still, a search that finds nothing has looked at a
forest: `exists_forest` makes a plan of what is below each place on the
stack.  No argument about cycles is needed, since a place that is met a
second time, by whatever way, is a violation: the places of the plans are
those that the search takes up, one after the other, into the list of
those seen.
-/
import Formula.Graph.Validate
import Formula.Proofs.Plan.Reading
import Mathlib.Data.List.Forall2

namespace Formula

namespace Plan

/-- What is wrong with an operand that is, or is not, there. -/
def gap (r : Ref) (side : Side) (part : Plan) : List Violation :=
  match part.top with
  | none => [.missing r side]
  | some _ => []

/-- The vacancies, in the order in which the search comes upon them. -/
def gaps : Plan → List Violation
  | .vacant => []
  | .leaf _ _ => []
  | .node r _ left right =>
      gap r .left left ++ gap r .right right ++ (right.gaps ++ left.gaps)

/-- The places in the order in which the search meets them, the latest
first. -/
def met : Plan → List Ref
  | .vacant => []
  | .leaf r _ => [r]
  | .node r _ left right => left.met ++ (right.met ++ [r])

variable {p : Plan}

theorem mem_met {r : Ref} : r ∈ p.met ↔ r ∈ p.refs := by
  induction p with
  | vacant => rfl
  | leaf s x => rfl
  | node s op left right ihl ihr =>
      simp only [met, refs, List.mem_append, List.mem_cons, List.not_mem_nil,
        or_false, ihl, ihr]
      rw [or_comm (b := r = s)]

theorem gap_eq_nil {r : Ref} {side : Side} {part : Plan}
    (h : part.top ≠ none) : gap r side part = [] := by
  unfold gap
  split
  · next hnone => exact absurd hnone h
  · rfl

theorem Complete.gaps_eq_nil (h : p.Complete) : p.gaps = [] := by
  induction p with
  | vacant => exact h.elim
  | leaf r x => rfl
  | node r op left right ihl ihr =>
      rw [gaps, gap_eq_nil h.1.top_ne_none, gap_eq_nil h.2.top_ne_none,
        ihl h.1, ihr h.2]
      rfl

/-- An open plan lacks one operand, the right one at the end of its
edge. -/
theorem Open.gaps_eq {q : Ref} (h : p.Open) (hq : p.edge.getLast? = some q) :
    p.gaps = [.missing q .right] := by
  induction p with
  | vacant => cases hq
  | leaf r x => exact h.elim
  | node r op left right _ ihr =>
      rw [gaps, gap_eq_nil h.1.top_ne_none, h.1.gaps_eq_nil]
      cases right with
      | vacant =>
          rw [← Option.some.inj hq]
          rfl
      | leaf s x => exact h.2.elim
      | node s o l t =>
          rw [edge, List.getLast?_cons] at hq
          obtain ⟨q', hq'⟩ :=
            edge_getLast?_isSome (p := .node s o l t) (Option.some_ne_none s)
          rw [hq', Option.getD_some] at hq
          rw [ihr h.2 (hq'.trans hq)]
          rfl

end Plan

namespace Graph

variable {g : Graph} {up : Option Ref} {p : Plan} {seen stack : List Ref} {r : Ref}

-- ====================================================== one place at a time

theorem violationsFrom_value {x : Float} (hnew : r ∉ seen)
    (hc : g.content? r = some (.value x)) :
    g.violationsFrom seen (r :: stack) = g.violationsFrom (r :: seen) stack := by
  rw [violationsFrom, dif_neg hnew]
  split <;> simp_all

theorem violationsFrom_operator {op : Option Operator} {left right : Option Ref}
    (hnew : r ∉ seen) (hc : g.content? r = some (.operator op left right)) :
    g.violationsFrom seen (r :: stack)
      = g.operandViolations r .left left ++ g.operandViolations r .right right
        ++ g.violationsFrom (r :: seen) (right.toList ++ left.toList ++ stack) := by
  rw [violationsFrom, dif_neg hnew]
  split <;> simp_all

theorem Stands.operandViolations_eq (hp : g.Stands (some r) p) (side : Side) :
    g.operandViolations r side p.top = Plan.gap r side p := by
  unfold Plan.gap
  cases htop : p.top with
  | none => rfl
  | some c =>
      unfold operandViolations
      simp [hp.parent?_top htop]

-- ======================================================== along a plan

/-- The search goes through the plan and on with what waits. -/
theorem Stands.violationsFrom_eq (hp : g.Stands up p) (hd : p.refs.Nodup)
    (hnew : ∀ s ∈ p.refs, s ∉ seen) (stack : List Ref) :
    g.violationsFrom seen (p.top.toList ++ stack)
      = p.gaps ++ g.violationsFrom (p.met ++ seen) stack := by
  induction p generalizing up seen stack with
  | vacant => rfl
  | leaf s x =>
      exact violationsFrom_value (hnew s (List.mem_singleton_self s))
        (content?_of_node? hp)
  | node s op left right ihl ihr =>
      obtain ⟨hs, hl, ht⟩ := hp
      obtain ⟨hdl, hdr, hsl, hsr, hdisj⟩ := Plan.nodup_node hd
      have hnews : s ∉ seen := hnew s (Plan.mem_refs_node.2 (Or.inr (Or.inl rfl)))
      -- the right part is gone through first, and is new to the left one
      have hright : ∀ q ∈ right.refs, q ∉ s :: seen := by
        intro q hq hmem
        rcases List.mem_cons.1 hmem with rfl | hmem
        · exact hsr hq
        · exact hnew q (Plan.mem_refs_node.2 (Or.inr (Or.inr hq))) hmem
      have hleft : ∀ q ∈ left.refs, q ∉ right.met ++ s :: seen := by
        intro q hq hmem
        rcases List.mem_append.1 hmem with hmem | hmem
        · exact hdisj q hq (Plan.mem_met.1 hmem)
        · rcases List.mem_cons.1 hmem with rfl | hmem
          · exact hsl hq
          · exact hnew q (Plan.mem_refs_node.2 (Or.inl hq)) hmem
      show g.violationsFrom seen (s :: stack) = _
      rw [violationsFrom_operator hnews (content?_of_node? hs),
        hl.operandViolations_eq, ht.operandViolations_eq, List.append_assoc
          right.top.toList, ihr ht hdr hright, ihl hl hdl hleft]
      simp [Plan.gaps, Plan.met]

/-- Validation finds the vacancies, and a parent that the top may have. -/
theorem Stands.violations_eq (hp : g.Stands up p) (hd : p.refs.Nodup)
    (htop : p.top = some r) :
    g.violations (some r)
      = (if up.isSome then [.rootHasParent r] else []) ++ p.gaps := by
  have hsearch := hp.violationsFrom_eq hd (fun s _ => List.not_mem_nil) []
  rw [htop] at hsearch
  show (if (g.parent? r).isSome then _ else _) ++ g.violationsFrom [] [r] = _
  rw [hp.parent?_top htop]
  simpa [violationsFrom] using hsearch

theorem Holds.violations_eq_nil {root : Option Ref} {t : Tree}
    (h : g.Holds root t) : g.violations root = [] := by
  obtain ⟨r, rfl, -⟩ := h.exists_root
  obtain ⟨p, htop, ht, hd, hp⟩ := h
  rw [hp.violations_eq hd htop, (Plan.complete_of_tree? ht).gaps_eq_nil]
  rfl

-- ================================================= where nothing is known

/-- Every operator node has its operator. -/
def Equipped (g : Graph) : Prop :=
  ∀ r left right, g.content? r ≠ some (.operator none left right)

/-- A plan of all that is below a place. -/
def Below (g : Graph) (r : Ref) (p : Plan) : Prop :=
  p.top = some r ∧ p.Complete ∧ g.Stands (g.parent? r) p

/-- Plans of all that is below the places of a stack; their places are
distinct and were not seen before. -/
structure Forest (g : Graph) (seen stack : List Ref) (plans : List Plan) :
    Prop where
  below : List.Forall₂ g.Below stack plans
  distinct : (plans.flatMap Plan.refs).Nodup
  fresh : ∀ r ∈ plans.flatMap Plan.refs, r ∉ seen

theorem node?_of_content? {c : Content} (h : g.content? r = some c) :
    g.node? r = some ⟨c, g.parent? r⟩ := by
  unfold content? at h
  obtain ⟨n, hn, rfl⟩ := Option.map_eq_some_iff.1 h
  rw [parent?_of_node? hn, hn]

theorem content?_ne_none (h : r < g.size) : g.content? r ≠ none := by
  intro hnone
  simp only [content?, node?, Option.map_eq_none_iff,
    Array.getElem?_eq_none_iff] at hnone
  exact absurd h (Nat.not_lt_of_le hnone)

theorem lt_size_of_parent? {q : Ref} (h : g.parent? r = some q) : r < g.size := by
  unfold parent? at h
  obtain ⟨n, hn, -⟩ := Option.bind_eq_some_iff.1 h
  exact lt_size_of_node? hn

theorem exists_of_operandViolations {side : Side} {child : Option Ref}
    (h : g.operandViolations r side child = []) :
    ∃ c, child = some c ∧ g.parent? c = some r := by
  cases child with
  | none => cases h
  | some c =>
      unfold operandViolations at h
      by_cases hpar : g.parent? c = some r
      · exact ⟨c, rfl, hpar⟩
      · simp [hpar] at h

/-- An operator node that nothing is said about has both operands, and
they point back. -/
theorem exists_operands_of_violations {left right : Option Ref}
    {rest : List Violation}
    (h : g.operandViolations r .left left ++ g.operandViolations r .right right
      ++ rest = []) :
    ∃ l t, left = some l ∧ right = some t ∧ g.parent? l = some r
      ∧ g.parent? t = some r ∧ rest = [] := by
  simp only [List.append_eq_nil_iff] at h
  obtain ⟨⟨hleft, hright⟩, hrest⟩ := h
  obtain ⟨l, hl, hlback⟩ := exists_of_operandViolations hleft
  obtain ⟨t, ht, htback⟩ := exists_of_operandViolations hright
  exact ⟨l, t, hl, ht, hlback, htback, hrest⟩

/-- What points back to a parent is a node of the graph. -/
theorem lt_size_of_operands {l t : Ref} (hl : g.parent? l = some r)
    (ht : g.parent? t = some r) (hstack : ∀ s ∈ r :: stack, s < g.size) :
    ∀ s ∈ t :: l :: stack, s < g.size := by
  simp only [List.forall_mem_cons] at hstack ⊢
  exact ⟨lt_size_of_parent? ht, lt_size_of_parent? hl, hstack.2⟩

/-- A new place and a plan below it, made of plans that are new to the
place too, join a forest. -/
theorem Forest.cons_of_perm {plans plans' : List Plan} (hnew : r ∉ seen)
    {p : Plan} (hp : g.Below r p)
    (hbelow : List.Forall₂ g.Below stack plans)
    (hperm : ((p :: plans).flatMap Plan.refs).Perm
      (r :: plans'.flatMap Plan.refs))
    (hd : (plans'.flatMap Plan.refs).Nodup)
    (hfresh : ∀ s ∈ plans'.flatMap Plan.refs, s ∉ r :: seen) :
    g.Forest seen (r :: stack) (p :: plans) := by
  refine ⟨.cons hp hbelow, ?_, ?_⟩
  · refine hperm.nodup_iff.2 (List.nodup_cons.2 ⟨fun hmem => ?_, hd⟩)
    exact hfresh r hmem (List.mem_cons_self ..)
  · intro s hs
    rcases List.mem_cons.1 (hperm.mem_iff.1 hs) with rfl | hs
    · exact hnew
    · exact fun hmem => hfresh s hs (List.mem_cons_of_mem _ hmem)

theorem Forest.leaf {plans : List Plan} {x : Float} (hnew : r ∉ seen)
    (hc : g.content? r = some (.value x))
    (h : g.Forest (r :: seen) stack plans) :
    g.Forest seen (r :: stack) (.leaf r x :: plans) :=
  .cons_of_perm hnew ⟨rfl, trivial, node?_of_content? hc⟩ h.below (.refl _)
    h.distinct h.fresh

/-- The two plans on top are the operands', the right one first. -/
theorem Forest.node {plans : List Plan} {op : Operator} {l t : Ref}
    {left right : Plan} (hnew : r ∉ seen)
    (hc : g.content? r = some (.operator (some op) (some l) (some t)))
    (hl : g.parent? l = some r) (ht : g.parent? t = some r)
    (h : g.Forest (r :: seen) (t :: l :: stack) (right :: left :: plans)) :
    g.Forest seen (r :: stack) (.node r op left right :: plans) := by
  rcases h.below with - | ⟨⟨httop, hct, hst⟩, - | ⟨⟨hltop, hcl, hsl⟩, hrest⟩⟩
  rw [ht] at hst
  rw [hl] at hsl
  refine .cons_of_perm hnew ⟨rfl, ⟨hcl, hct⟩, ?_, hsl, hst⟩ hrest ?_
    h.distinct h.fresh
  · rw [hltop, httop]
    exact node?_of_content? hc
  · simp only [List.flatMap_cons, Plan.refs, List.append_assoc,
      List.cons_append]
    refine List.perm_middle.trans (List.Perm.cons r ?_)
    exact List.perm_append_comm_assoc ..

/-- A search that finds nothing has looked at a forest. -/
theorem exists_forest (hops : g.Equipped) (hstack : ∀ r ∈ stack, r < g.size)
    (h : g.violationsFrom seen stack = []) :
    ∃ plans, g.Forest seen stack plans := by
  fun_induction violationsFrom g seen stack with
  | case1 => exact ⟨[], .nil, .nil, nofun⟩
  | case2 => cases h
  | case3 seen r stack _ hnone =>
      exact absurd hnone (content?_ne_none (hstack r (List.mem_cons_self ..)))
  | case4 seen r stack hnew x hc ih =>
      obtain ⟨plans, hforest⟩ :=
        ih (fun s hs => hstack s (List.mem_cons_of_mem _ hs)) h
      exact ⟨_, hforest.leaf hnew hc⟩
  | case5 => cases h
  | case6 seen r stack hnew op left right hc ih =>
      obtain ⟨l, t, rfl, rfl, hl, ht, hrest⟩ := exists_operands_of_violations h
      obtain ⟨o, rfl⟩ : ∃ o, op = some o := by
        refine Option.ne_none_iff_exists'.1 fun hnone => ?_
        rw [hnone] at hc
        exact hops _ _ _ hc
      obtain ⟨plans, hforest⟩ := ih (lt_size_of_operands hl ht hstack) hrest
      rcases hforest.below with - | ⟨-, - | ⟨-, -⟩⟩
      exact ⟨_, hforest.node hnew hc hl ht⟩

/-- Nothing is wrong below a node that has no parent and from which the
search finds nothing. -/
theorem violations_eq_nil_iff :
    g.violations (some r) = []
      ↔ g.parent? r = none ∧ g.violationsFrom [] [r] = [] := by
  unfold violations
  cases hparent : g.parent? r <;> simp [hparent]

/-- If nothing is wrong below a node, there is a tree. -/
theorem exists_holds (hops : g.Equipped) (hr : r < g.size)
    (h : g.violations (some r) = []) : ∃ t, g.Holds (some r) t := by
  obtain ⟨hparent, hsearch⟩ := violations_eq_nil_iff.1 h
  obtain ⟨plans, hforest⟩ := exists_forest hops (by simpa using hr) hsearch
  rcases hforest.below with - | ⟨⟨htop, hc, hp⟩, -⟩
  obtain ⟨t, ht⟩ := hc.exists_tree?
  refine ⟨t, _, htop, ht, ?_, hparent ▸ hp⟩
  exact hforest.distinct.sublist (List.sublist_append_left ..)

end Graph

end Formula
