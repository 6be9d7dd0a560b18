/-
What validation reports, accounted for.  The search has a list of the
nodes that it has seen and a stack of places that it still has to look
at.  Nodes may be shared and links may lead in circles, so a place gets
onto the stack once for every link to it, and more often than once for
some.

# The balance

A search makes a `Tour`: the nodes that it takes up, each once, and the
nodes that it comes upon again.  Whatever gets onto the stack is taken
off it once, and is then one or the other.  So the stack and the operands
of the nodes taken up are, counted with their repetitions, the nodes
taken up and the repeats (`Tour.balance`).  Two things follow from that:
what is taken up is closed under operands, so it is all that can be
reached (`Tour.mem_iff_reaches`), and there is one repeat for every link but
those by which a node was first found.

# The items

All else that is reported is a matter of one node and its operands:
`missingAt`, `straysAt` and `foreignAt`.  Since each node is taken up
once, each of their items is reported once (`exists_tour`).
-/
import Formula.Proofs.Validity
import Mathlib.Data.List.Perm.Basic

namespace Formula

/-- Both sides, the left one first. -/
def Side.both : List Side := [.left, .right]

namespace Graph

variable {g : Graph} {seen stack nodes repeats : List Ref} {r : Ref}

/-- Every operand link leads to a node. -/
def Closed (g : Graph) : Prop :=
  ∀ r side c, g.operand? r side = some c → c < g.size

-- ==================================================== what there is to say

/-- The operands that an operator node lacks. -/
def missingAt (g : Graph) (r : Ref) : List Violation :=
  if g.holder (some r) = .operator then
    Side.both.flatMap fun side =>
      if g.operand? r side = none then [.missing r side] else []
  else []

/-- The operands of a node whose parent is another node, or none. -/
def straysAt (g : Graph) (r : Ref) : List Violation :=
  Side.both.flatMap fun side =>
    ((g.operand? r side).toList.filter fun c => g.parent? c ≠ some r).map
      (.stray r side)

/-- The node itself, if it is neither a value nor an operator node. -/
def foreignAt (g : Graph) (r : Ref) : List Violation :=
  match g.holder (some r) with
  | .foreign _ => [.foreign r]
  | _ => []

/-- All that is wrong at a node. -/
def wrongAt (g : Graph) (r : Ref) : List Violation :=
  g.missingAt r ++ g.straysAt r ++ g.foreignAt r

theorem wrongAt_value {x : Float} (h : g.content? r = some (.value x)) :
    g.wrongAt r = [] := by
  simp [wrongAt, missingAt, straysAt, foreignAt, Side.both,
    holder_of_content? h, operand?_eq_of_content? h, Content.holder,
    Content.operand]

theorem wrongAt_foreign {kind : Identifier}
    (h : g.content? r = some (.foreign kind)) : g.wrongAt r = [.foreign r] := by
  simp [wrongAt, missingAt, straysAt, foreignAt, Side.both,
    holder_of_content? h, operand?_eq_of_content? h, Content.holder,
    Content.operand]

theorem operandViolations_eq (g : Graph) (r : Ref) (side : Side)
    (child : Option Ref) :
    g.operandViolations r side child
      = (if child = none then [.missing r side] else [])
        ++ (child.toList.filter fun c => g.parent? c ≠ some r).map
          (.stray r side) := by
  unfold operandViolations
  cases child with
  | none => rfl
  | some c => by_cases hpar : g.parent? c = some r <;> simp [hpar]

/-- The search asks of one side whether the operand is missing or strays
before it asks the same of the other side. -/
theorem operandViolations_perm {op : Option Operator}
    {left right : Option Ref}
    (h : g.content? r = some (.operator op left right)) :
    (g.operandViolations r .left left
      ++ g.operandViolations r .right right).Perm (g.wrongAt r) := by
  have hsides : g.operandViolations r .left left
        ++ g.operandViolations r .right right
      = Side.both.flatMap fun side =>
          g.operandViolations r side (g.operand? r side) := by
    simp [Side.both, operand?_eq_of_content? h, Content.operand]
  have hholder : g.holder (some r) = .operator := holder_of_content? h
  rw [hsides, wrongAt, missingAt, straysAt, foreignAt, if_pos hholder, hholder]
  dsimp only
  rw [List.append_nil]
  simp only [operandViolations_eq]
  exact (List.flatMap_append_perm ..).symm

-- ============================================================== the tour

/-- What a search from a stack takes up, and what it comes upon again. -/
structure Tour (g : Graph) (seen stack nodes repeats : List Ref) : Prop where
  distinct : nodes.Nodup
  fresh : ∀ r ∈ nodes, r ∉ seen
  known : ∀ r ∈ repeats, r ∈ seen ∨ r ∈ nodes
  reached : ∀ r ∈ nodes, ∃ s ∈ stack, g.Reaches s r
  /-- What gets onto the stack is taken off it once. -/
  balance : (stack ++ nodes.flatMap g.operands).Perm (nodes ++ repeats)

theorem Tour.done (g : Graph) (seen : List Ref) : g.Tour seen [] [] [] where
  distinct := .nil
  fresh := nofun
  known := nofun
  reached := nofun
  balance := .refl _

/-- A place that has been seen is a repeat. -/
theorem Tour.again (h : g.Tour seen stack nodes repeats) (hr : r ∈ seen) :
    g.Tour seen (r :: stack) nodes (r :: repeats) where
  distinct := h.distinct
  fresh := h.fresh
  known := List.forall_mem_cons.2 ⟨Or.inl hr, h.known⟩
  reached s hs := by
    obtain ⟨t, ht, hreach⟩ := h.reached s hs
    exact ⟨t, List.mem_cons_of_mem _ ht, hreach⟩
  balance := (h.balance.cons r).trans List.perm_middle.symm

/-- A new node is taken up, and its operands go onto the stack. -/
theorem Tour.visit (next : List Ref)
    (h : g.Tour (r :: seen) (next ++ stack) nodes repeats) (hr : r ∉ seen)
    (hnext : next.Perm (g.operands r)) :
    g.Tour seen (r :: stack) (r :: nodes) repeats where
  distinct := by
    refine List.nodup_cons.2 ⟨fun hmem => ?_, h.distinct⟩
    exact h.fresh r hmem (List.mem_cons_self ..)
  fresh := by
    refine List.forall_mem_cons.2 ⟨hr, fun s hs hmem => ?_⟩
    exact h.fresh s hs (List.mem_cons_of_mem _ hmem)
  known s hs := by
    rcases h.known s hs with hmem | hmem
    · rcases List.mem_cons.1 hmem with rfl | hmem
      · exact Or.inr (List.mem_cons_self ..)
      · exact Or.inl hmem
    · exact Or.inr (List.mem_cons_of_mem _ hmem)
  reached := by
    refine List.forall_mem_cons.2
      ⟨⟨r, List.mem_cons_self .., [], rfl⟩, fun s hs => ?_⟩
    obtain ⟨t, ht, path, hpath⟩ := h.reached s hs
    rcases List.mem_append.1 ht with ht | ht
    · obtain ⟨side, hside⟩ := mem_operands_iff.1 (hnext.mem_iff.1 ht)
      exact ⟨r, List.mem_cons_self .., side :: path,
        (follow_cons path hside).trans hpath⟩
    · exact ⟨t, List.mem_cons_of_mem _ ht, path, hpath⟩
  balance := by
    refine List.Perm.cons r (.trans ?_ h.balance)
    rw [List.flatMap_cons, List.append_assoc]
    refine List.perm_append_comm_assoc .. |>.trans ?_
    exact (hnext.symm.append_right _)

/-- A search makes a tour, and reports of every node that it takes up
what is wrong there, and of the others that they are repeats. -/
theorem exists_tour (hclosed : g.Closed) (seen stack : List Ref)
    (hstack : ∀ r ∈ stack, r < g.size) :
    ∃ nodes repeats, g.Tour seen stack nodes repeats
      ∧ (g.violationsFrom seen stack).Perm
        (nodes.flatMap g.wrongAt ++ repeats.map .repeated) := by
  fun_induction violationsFrom g seen stack with
  | case1 seen => exact ⟨[], [], .done g seen, .refl _⟩
  | case2 seen r stack hr ih =>
      obtain ⟨nodes, repeats, htour, hreport⟩ :=
        ih fun s hs => hstack s (List.mem_cons_of_mem _ hs)
      exact ⟨nodes, r :: repeats, htour.again hr,
        (hreport.cons _).trans List.perm_middle.symm⟩
  | case3 seen r stack _ hnone =>
      exact absurd hnone (content?_ne_none (hstack r (List.mem_cons_self ..)))
  | case4 seen r stack hnew x hc ih =>
      obtain ⟨nodes, repeats, htour, hreport⟩ :=
        ih fun s hs => hstack s (List.mem_cons_of_mem _ hs)
      refine ⟨r :: nodes, repeats, htour.visit [] hnew ?_, ?_⟩
      · rw [operands_of_content? hc]
        exact .refl _
      · rwa [List.flatMap_cons, wrongAt_value hc]
  | case5 seen r stack hnew kind hc ih =>
      obtain ⟨nodes, repeats, htour, hreport⟩ :=
        ih fun s hs => hstack s (List.mem_cons_of_mem _ hs)
      refine ⟨r :: nodes, repeats, htour.visit [] hnew ?_, ?_⟩
      · rw [operands_of_content? hc]
        exact .refl _
      · rw [List.flatMap_cons, wrongAt_foreign hc]
        exact hreport.cons _
  | case6 seen r stack hnew op left right hc ih =>
      have hoperands : (right.toList ++ left.toList).Perm (g.operands r) := by
        rw [operands_of_content? hc]
        exact List.perm_append_comm
      have hin : ∀ s ∈ right.toList ++ left.toList ++ stack, s < g.size := by
        intro s hs
        rcases List.mem_append.1 hs with hs | hs
        · obtain ⟨side, hside⟩ := mem_operands_iff.1 (hoperands.mem_iff.1 hs)
          exact hclosed r side s hside
        · exact hstack s (List.mem_cons_of_mem _ hs)
      obtain ⟨nodes, repeats, htour, hreport⟩ := ih hin
      refine ⟨r :: nodes, repeats, htour.visit _ hnew hoperands, ?_⟩
      rw [List.flatMap_cons, List.append_assoc (g.wrongAt r)]
      exact (operandViolations_perm hc).append hreport

-- ====================================================== from one node on

theorem Tour.mem_of_mem_balance (h : g.Tour [] stack nodes repeats) {s : Ref}
    (hs : s ∈ stack ++ nodes.flatMap g.operands) : s ∈ nodes := by
  rcases List.mem_append.1 (h.balance.mem_iff.1 hs) with hs | hs
  · exact hs
  · exact (h.known s hs).resolve_left List.not_mem_nil

theorem Tour.mem_of_follow (h : g.Tour [] stack nodes repeats) {s : Ref}
    {path : List Side} (hr : r ∈ nodes) (hpath : g.follow r path = some s) :
    s ∈ nodes := by
  induction path generalizing r with
  | nil => exact Option.some.inj hpath ▸ hr
  | cons side path ih =>
      obtain ⟨c, hc, hrest⟩ := operand?_of_follow hpath
      have hmem : c ∈ nodes.flatMap g.operands :=
        List.mem_flatMap.2 ⟨r, hr, mem_operands_iff.2 ⟨side, hc⟩⟩
      exact ih (h.mem_of_mem_balance (List.mem_append_right _ hmem)) hrest

/-- What is taken up is what can be reached. -/
theorem Tour.mem_iff_reaches {root : Ref}
    (h : g.Tour [] [root] nodes repeats) (s : Ref) :
    s ∈ nodes ↔ g.Reaches root s := by
  constructor
  · intro hs
    obtain ⟨t, ht, hreach⟩ := h.reached s hs
    rwa [List.mem_singleton.1 ht] at hreach
  · rintro ⟨path, hpath⟩
    exact h.mem_of_follow (h.mem_of_mem_balance (by simp)) hpath

/-- The report on the graph below a node: what nodes there are, which of
them are met again, and all that is reported, up to its order. -/
structure Accounts (g : Graph) (root : Ref) (nodes repeats : List Ref) :
    Prop where
  distinct : nodes.Nodup
  reached : ∀ s, s ∈ nodes ↔ g.Reaches root s
  report : (g.violations (some root)).Perm
    ((if g.parent? root = none then [] else [.rootHasParent root])
      ++ nodes.flatMap g.missingAt ++ nodes.flatMap g.straysAt
      ++ nodes.flatMap g.foreignAt ++ repeats.map .repeated)
  /-- A node is met again once for every link to it but the first, and
  the root for every link. -/
  balance : (root :: nodes.flatMap g.operands).Perm (nodes ++ repeats)
  count : repeats.length + nodes.length
    = (nodes.flatMap g.operands).length + 1

/-- What is wrong node by node, sorted by what it is. -/
theorem flatMap_wrongAt_perm (g : Graph) (nodes : List Ref) :
    (nodes.flatMap g.wrongAt).Perm
      (nodes.flatMap g.missingAt ++ nodes.flatMap g.straysAt
        ++ nodes.flatMap g.foreignAt) := by
  have hboth := List.flatMap_append_perm nodes g.missingAt g.straysAt
  have hall := List.flatMap_append_perm nodes
    (fun r => g.missingAt r ++ g.straysAt r) g.foreignAt
  exact ((hboth.append_right _).trans hall).symm

theorem Tour.accounts {root : Ref} (h : g.Tour [] [root] nodes repeats)
    (hreport : (g.violationsFrom [] [root]).Perm
      (nodes.flatMap g.wrongAt ++ repeats.map .repeated)) :
    g.Accounts root nodes repeats where
  distinct := h.distinct
  reached := h.mem_iff_reaches
  report := by
    have hsorted := hreport.trans ((g.flatMap_wrongAt_perm nodes).append_right _)
    unfold violations
    cases hparent : g.parent? root with
    | none => simpa [hparent] using hsorted
    | some q => simpa [hparent] using hsorted
  balance := h.balance
  count := by
    have hlength := h.balance.length_eq
    simp only [List.length_append, List.length_singleton] at hlength
    omega

-- ============================================================ the report

/-- Whatever the links, validation comes to an answer below every node:
the wording of a list that has one item for a parent of the node, one for
each operand that is missing below it, one for each that does not point
back, one for each foreign node, one for each time that a node is met
again, and no other.  The repeats and the nodes are together one more
than the links. -/
theorem violations_accounted (g : Graph) (hops : g.Equipped)
    (hclosed : g.Closed) (root : Ref) (hroot : root < g.size) :
    ∃ nodes repeats words, g.Accounts root nodes repeats
      ∧ (∀ v, g.describe v = .ok (words v))
      ∧ g.validate (some root)
        = .ok ((g.violations (some root)).map words) := by
  obtain ⟨nodes, repeats, htour, hreport⟩ :=
    exists_tour hclosed [] [root] (by simpa using hroot)
  obtain ⟨words, hwords, hvalidate⟩ := exists_words hops (some root)
  exact ⟨nodes, repeats, words, htour.accounts hreport, hwords, hvalidate⟩

/-- A product that is its own right operand, and its own parent, of a sum
that lacks one operand and has a foreign node for the other. -/
theorem violations_accounted_circle :
    let g : Graph := ⟨#[⟨.foreign ⟨"Root", by decide +kernel⟩, none⟩,
      ⟨.operator (some .add) (some 0) none, none⟩,
      ⟨.operator (some .mul) (some 1) (some 2), some 2⟩]⟩
    g.Equipped ∧ g.Closed ∧ 2 < g.size
      ∧ g.violations (some 2) = [.rootHasParent 2, .stray 2 .left 1,
        .repeated 2, .stray 1 .left 0, .missing 1 .right, .foreign 0]
      ∧ ∃ nodes repeats words, g.Accounts 2 nodes repeats
        ∧ (∀ v, g.describe v = .ok (words v))
        ∧ g.validate (some 2) = .ok ((g.violations (some 2)).map words) := by
  intro g
  have hops : g.Equipped := by
    intro r left right h
    match r with
    | 0 | 1 | 2 => cases h
    | _ + 3 => cases h
  have hclosed : g.Closed := by
    intro r side c h
    match r, side, h with
    | 1, .left, h | 2, .left, h | 2, .right, h =>
        cases h
        decide
  have hfound : g.violations (some 2) = [.rootHasParent 2, .stray 2 .left 1,
      .repeated 2, .stray 1 .left 0, .missing 1 .right, .foreign 0] := by
    cbv
  exact ⟨hops, hclosed, by decide, hfound,
    violations_accounted g hops hclosed 2 (by decide)⟩

end Graph

end Formula
