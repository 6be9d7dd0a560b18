/-
Walks of a graph without cycles.  The stack, the queue and the levels all
come to readings of the tree that the graph is unrolled into, so they list
the same nodes, and a node as often as there are paths to it
(`walks_agree`).

# Repeats

Validation takes up every node once.  It meets a node again just when the
walks list one twice (`Accounts.repeats_eq_nil_iff`).  If they do not, the
walks list what validation takes up, and by the balance of either there is
nothing left to meet again.  If validation meets no node again, then the
nodes that the walks list in excess of it are, all of them and no others,
the operands of nodes listed in excess (`Accounts.excess_perm`).  So paths
of any length lead among them, and where there is no cycle there are none
(`Acyclic.eq_nil_of_owned`).
-/
import Formula.Proofs.Graph.Unrolling
import Formula.Proofs.Worker.Calls
import Mathlib.Data.List.Perm.Subperm

namespace Formula.Graph

variable {g : Graph} {r : Option Ref} {root : Ref} {t : Unrolled}
  {nodes repeats : List Ref}

-- ======================================================== counting links

/-- The tree lists its top, and the operands of all that it lists. -/
theorem Unrolls.preorder_balance (h : g.Unrolls r t) :
    t.preorder.Perm (r.toList ++ t.preorder.flatMap g.operands) := by
  induction h with
  | none => exact .refl _
  | @node s left right _ _ ihl ihr =>
      rw [Unrolled.preorder, List.flatMap_cons, List.flatMap_append, operands_eq]
      refine List.Perm.cons s ((ihl.append ihr).trans ?_)
      rw [List.append_assoc, List.append_assoc]
      exact (List.perm_append_comm_assoc ..).append_left _

/-- If each of some nodes is an operand of one of them, paths of any length
lead from one of them to each. -/
theorem exists_follow_of_owned {excess : List Ref}
    (howned : ∀ x ∈ excess, ∃ owner ∈ excess, x ∈ g.operands owner) (n : Nat) :
    ∀ x ∈ excess, ∃ s path,
      path.length = n ∧ s ∈ excess ∧ g.follow s path = some x := by
  induction n with
  | zero => exact fun x hx => ⟨x, [], rfl, hx, rfl⟩
  | succ n ih =>
      intro x hx
      obtain ⟨s, path, hlength, hs, hpath⟩ := ih x hx
      obtain ⟨owner, howner, hside⟩ := howned s hs
      obtain ⟨side, hside⟩ := mem_operands_iff.1 hside
      exact ⟨owner, side :: path, congrArg Nat.succ hlength, howner,
        (follow_cons path hside).trans hpath⟩

/-- Where there is no cycle, not every one of some nodes is an operand of
another of them. -/
theorem Acyclic.eq_nil_of_owned (h : g.Acyclic) {excess : List Ref}
    (hin : ∀ x ∈ excess, x < g.size)
    (howned : ∀ x ∈ excess, ∃ owner ∈ excess, x ∈ g.operands owner) :
    excess = [] := by
  refine List.eq_nil_iff_forall_not_mem.2 fun x hx => ?_
  obtain ⟨s, path, hlength, -, hpath⟩ :=
    exists_follow_of_owned howned g.size x hx
  exact absurd (h.length_lt hpath (hin x hx)) (by omega)

theorem Accounts.mem_preorder_iff (h : g.Accounts root nodes repeats)
    (ht : g.Unrolls (some root) t) (x : Ref) : x ∈ t.preorder ↔ x ∈ nodes := by
  rw [ht.mem_preorder_iff, h.reached]
  exact ⟨fun ⟨_, hs, hreach⟩ => Option.some.inj hs ▸ hreach,
    fun hreach => ⟨root, rfl, hreach⟩⟩

/-- The walks list what validation takes up, and perhaps more. -/
theorem Accounts.exists_excess (h : g.Accounts root nodes repeats)
    (ht : g.Unrolls (some root) t) :
    ∃ excess, t.preorder.Perm (nodes ++ excess) := by
  have hsub : nodes ⊆ t.preorder := fun x => (h.mem_preorder_iff ht x).2
  obtain ⟨nodes', hsame, hwithin⟩ := h.distinct.subperm hsub
  obtain ⟨excess, hexcess⟩ := hwithin.exists_perm_append
  exact ⟨excess, hexcess.trans (hsame.append_right excess)⟩

/-- If nothing is met again, what is listed in excess is the operands of
what is listed in excess. -/
theorem Accounts.excess_perm (h : g.Accounts root nodes [])
    (ht : g.Unrolls (some root) t) {excess : List Ref}
    (hexcess : t.preorder.Perm (nodes ++ excess)) :
    (excess.flatMap g.operands).Perm excess := by
  have hbalance : (root :: nodes.flatMap g.operands).Perm nodes := by
    simpa using h.balance
  have hlisted : t.preorder.Perm
      (root :: nodes.flatMap g.operands ++ excess.flatMap g.operands) := by
    rw [List.cons_append, ← List.flatMap_append]
    exact ht.preorder_balance.trans ((hexcess.flatMap_right _).cons root)
  refine (List.perm_append_left_iff nodes).1 ?_
  exact (hbalance.symm.append_right _).trans (hlisted.symm.trans hexcess)

/-- Nothing is met again just when nothing is listed twice. -/
theorem Accounts.repeats_eq_nil_iff (h : g.Accounts root nodes repeats)
    (hacyclic : g.Acyclic) (hclosed : g.Closed)
    (ht : g.Unrolls (some root) t) : repeats = [] ↔ t.preorder.Nodup := by
  constructor
  · rintro rfl
    obtain ⟨excess, hexcess⟩ := h.exists_excess ht
    have howned : ∀ x ∈ excess, ∃ owner ∈ excess, x ∈ g.operands owner :=
      fun x hx => List.mem_flatMap.1 ((h.excess_perm ht hexcess).mem_iff.2 hx)
    have hempty : excess = [] := by
      refine hacyclic.eq_nil_of_owned (fun x hx => ?_) howned
      obtain ⟨owner, -, hside⟩ := howned x hx
      obtain ⟨side, hside⟩ := mem_operands_iff.1 hside
      exact hclosed owner side x hside
    rw [hempty, List.append_nil] at hexcess
    exact hexcess.nodup_iff.2 h.distinct
  · intro hdistinct
    have hsame : t.preorder.Perm nodes :=
      (List.perm_ext_iff_of_nodup hdistinct h.distinct).2 (h.mem_preorder_iff ht)
    have hlisted : nodes.Perm (root :: nodes.flatMap g.operands) :=
      hsame.symm.trans
        (ht.preorder_balance.trans ((hsame.flatMap_right _).cons root))
    have hcount := h.balance.length_eq
    rw [List.length_append, ← hlisted.length_eq] at hcount
    exact List.eq_nil_of_length_eq_zero (by omega)

-- ============================================================== wording

theorem Accounts.repeated_mem_iff (h : g.Accounts root nodes repeats) (x : Ref) :
    .repeated x ∈ g.violations (some root) ↔ x ∈ repeats := by
  have hforeign : ∀ s, .repeated x ∉ g.foreignAt s := by
    intro s
    unfold foreignAt
    split
    · simp
    · simp
  rw [h.report.mem_iff]
  simp [missingAt, straysAt, hforeign]

/-- The last blank of a text and the two characters before it, last
first. -/
def ending (text : String) : List Char :=
  (text.toList.reverse.dropWhile (· ≠ ' ')).take 3

theorem ending_append (a : String) {b : String} (h : (ending b).length = 3) :
    ending (a ++ b) = ending b := by
  unfold ending at h ⊢
  rw [List.length_take] at h
  rw [String.toList_append, List.reverse_append, List.dropWhile_append,
    if_neg, List.take_append_of_le_length (by omega)]
  rw [List.isEmpty_iff_length_eq_zero]
  omega

/-- A word at the end does not count. -/
theorem ending_append_word (a : String) {b : String}
    (h : ' ' ∉ b.toList) : ending (a ++ b) = ending a := by
  unfold ending
  rw [String.toList_append, List.reverse_append, List.dropWhile_append_of_pos]
  intro c hc
  exact decide_eq_true (ne_of_mem_of_not_mem (List.mem_reverse.1 hc) h)

theorem holder_name_blankless (holder : Holder) :
    ' ' ∉ holder.name.toList := by
  cases holder with
  | nothing | value | operator => decide
  | foreign kind => exact kind.blankless

/-- Nothing else that is said of a graph ends like what is said of a node
that is met again. -/
theorem ending_describe_ne {v : Violation} {text : String}
    (h : g.describe v = .ok text) (hv : ∀ x, v ≠ .repeated x) :
    ending text ≠ ending " is reachable more than once" := by
  cases v with
  | repeated x => exact absurd rfl (hv x)
  | noRoot =>
      cases h
      decide
  | foreign x =>
      cases h
      rw [ending_append_word _ (holder_name_blankless _)]
      decide
  | rootHasParent x =>
      obtain ⟨name, -, htext⟩ := exists_ok_of_bind h
      cases htext
      rw [ending_append _ (by decide)]
      decide
  | missing x side =>
      obtain ⟨name, -, htext⟩ := exists_ok_of_bind h
      cases htext
      cases side with
      | left | right =>
          rw [String.append_assoc, String.append_assoc]
          rw [ending_append _ (by decide)]
          decide
  | stray x side child =>
      obtain ⟨name, -, h⟩ := exists_ok_of_bind h
      obtain ⟨name', -, htext⟩ := exists_ok_of_bind h
      cases htext
      rw [ending_append _ (by decide)]
      decide

theorem describe_repeated_iff {v : Violation} {text : String}
    (h : g.describe v = .ok text) :
    (∃ name, text = name ++ " is reachable more than once")
      ↔ ∃ x, v = .repeated x := by
  constructor
  · rintro ⟨name, rfl⟩
    by_contra hv
    exact ending_describe_ne h (not_exists.1 hv) (ending_append name (by decide))
  · rintro ⟨x, rfl⟩
    obtain ⟨name, -, htext⟩ := exists_ok_of_bind h
    exact ⟨name, (Except.ok.inj htext).symm⟩

/-- One of the entries says so just when a node is met again. -/
theorem Accounts.exists_repeated_iff (h : g.Accounts root nodes repeats)
    {words : Violation → String} (hwords : ∀ v, g.describe v = .ok (words v)) :
    (∃ name, name ++ " is reachable more than once"
        ∈ (g.violations (some root)).map words)
      ↔ repeats ≠ [] := by
  constructor
  · rintro ⟨name, hname⟩
    obtain ⟨v, hv, htext⟩ := List.mem_map.1 hname
    obtain ⟨x, rfl⟩ := (describe_repeated_iff (hwords v)).1 ⟨name, htext⟩
    exact List.ne_nil_of_mem ((h.repeated_mem_iff x).1 hv)
  · intro hne
    obtain ⟨x, hx⟩ := List.exists_mem_of_ne_nil _ hne
    obtain ⟨name, htext⟩ := (describe_repeated_iff (hwords (.repeated x))).2 ⟨x, rfl⟩
    exact ⟨name, List.mem_map.2 ⟨_, (h.repeated_mem_iff x).2 hx, htext⟩⟩

-- ============================================================== the walks

theorem Unrolls.depthBelow_eq (h : g.Unrolls (some root) t)
    (hn : t.height ≤ g.size) : g.depthBelow root = t.height := by
  have hlevels := h.levels_eq (hn.trans (Nat.le_add_left _ 0))
  rw [h.level_zero] at hlevels
  show (g.levels g.size (some root).toList).length = _
  rw [hlevels, List.length_map, List.length_range', Nat.sub_zero]

/-- The height of what is below a place that may be empty. -/
theorem Unrolls.foldr_depthBelow (h : g.Unrolls r t) (hn : t.height ≤ g.size)
    (n : Nat) : (r.toList.map g.depthBelow).foldr max n = max t.height n := by
  cases h with
  | none => exact (Nat.zero_max n).symm
  | node hleft hright =>
      rw [← (Unrolls.node hleft hright).depthBelow_eq hn]
      rfl

theorem Unrolls.nodesBelow_breadthFirst (h : g.Unrolls (some root) t)
    (hn : t.height ≤ g.size) :
    g.nodesBelow .breadthFirst root = (List.range t.height).flatMap t.level := by
  have henough : t.height ≤ 0 + g.size := hn.trans (Nat.le_add_left _ 0)
  have hqueue := h.breadthFirst_eq henough
  rw [h.levels_eq henough, h.level_zero] at hqueue
  exact hqueue.trans (by rw [List.flatMap_def, List.range_eq_range', Nat.sub_zero])

/-- Where there is no cycle, the graph below a node is unrolled into one
tree.  The stack lists it in pre-order and the queue level by level, which
is the same up to order; as many levels have nodes as the depth says, one
more than below the deepest operand; and validation meets a node again
just when the walks list one twice. -/
theorem walks_agree (g : Graph) (hacyclic : g.Acyclic) (hclosed : g.Closed)
    (r : Ref) (hr : r < g.size) :
    ∃ t, (∀ u, g.Unrolls (some r) u ↔ u = t)
      ∧ g.nodesBelow .depthFirst r = t.preorder
      ∧ g.nodesBelow .breadthFirst r
        = (List.range (g.depthBelow r)).flatMap t.level
      ∧ (g.nodesBelow .breadthFirst r).Perm (g.nodesBelow .depthFirst r)
      ∧ (∀ k, t.level k ≠ [] ↔ k < g.depthBelow r)
      ∧ g.depthBelow r = ((g.operands r).map g.depthBelow).foldr max 0 + 1
      ∧ (g.Equipped → ∃ entries, g.validate (some r) = .ok entries
        ∧ ∀ order, (∃ name, name ++ " is reachable more than once" ∈ entries)
          ↔ ¬ (g.nodesBelow order r).Nodup) := by
  obtain ⟨t, ht, hn⟩ := exists_unrolls hclosed (hacyclic.within (some r)) (by
    rintro _ ⟨⟩
    exact hr)
  have hdepth := ht.depthBelow_eq hn
  have hstack : g.nodesBelow .depthFirst r = t.preorder := by
    have hwalk := ht.depthFirst_eq hn []
    rw [depthFirst, List.append_nil, List.append_nil] at hwalk
    exact hwalk
  have hqueue := ht.nodesBelow_breadthFirst hn
  have hperm : (g.nodesBelow .breadthFirst r).Perm (g.nodesBelow .depthFirst r) := by
    rw [hqueue, hstack]
    exact t.levels_perm_preorder (Nat.le_refl _)
  refine ⟨t, fun u => ⟨fun hu => hu.unique ht, fun hu => hu ▸ ht⟩, hstack, ?_,
    hperm, fun k => ?_, ?_, fun hops => ?_⟩
  · rw [hdepth, hqueue]
  · rw [hdepth, ne_eq, t.level_eq_nil_iff, Nat.not_le]
  · rw [hdepth]
    cases ht with
    | node hleft hright =>
        rw [Unrolled.height] at hn ⊢
        rw [operands_eq, List.map_append, List.foldr_append,
          hright.foldr_depthBelow (by omega), hleft.foldr_depthBelow (by omega),
          Nat.max_zero]
  · obtain ⟨nodes, repeats, htour, hreport⟩ :=
      exists_tour hclosed [] [r] (by simpa using hr)
    obtain ⟨words, hwords, hvalidate⟩ := exists_words hops (some r)
    have hacc := htour.accounts hreport
    have hnone := hacc.repeats_eq_nil_iff hacyclic hclosed ht
    refine ⟨_, hvalidate, fun order => ?_⟩
    rw [hacc.exists_repeated_iff hwords, ne_eq, hnone, ← hstack]
    cases order with
    | depthFirst => rfl
    | breadthFirst => rw [hperm.nodup_iff]

/-- A product with the same sum on both sides; the sum lacks an operand. -/
theorem walks_agree_shared :
    let g : Graph := ⟨#[⟨.value 1, some 1⟩,
      ⟨.operator (some .add) (some 0) none, some 2⟩,
      ⟨.operator (some .mul) (some 1) (some 1), none⟩]⟩
    g.Acyclic ∧ g.Closed ∧ 2 < g.size ∧ g.Equipped
      ∧ g.nodesBelow .depthFirst 2 = [2, 1, 0, 1, 0]
      ∧ g.nodesBelow .breadthFirst 2 = [2, 1, 1, 0, 0]
      ∧ (g.nodesBelow .breadthFirst 2).Perm (g.nodesBelow .depthFirst 2)
      ∧ g.depthBelow 2 = 3
      ∧ ∃ entries, g.validate (some 2) = .ok entries
        ∧ ∃ name, name ++ " is reachable more than once" ∈ entries := by
  intro g
  have hdown : ∀ r side c, g.operand? r side = some c → c < r := by
    intro r side c h
    match r, side, h with
    | 1, .left, h | 2, .left, h | 2, .right, h =>
        cases h
        decide
  have hacyclic : g.Acyclic := acyclic_of_lt hdown
  have hclosed : g.Closed := fun r side c h =>
    (hdown r side c h).trans (lt_size_of_operand? h)
  have hops : g.Equipped := by
    intro r left right h
    match r with
    | 0 | 1 | 2 => cases h
    | _ + 3 => cases h
  have hstack : g.nodesBelow .depthFirst 2 = [2, 1, 0, 1, 0] := by cbv
  have hqueue : g.nodesBelow .breadthFirst 2 = [2, 1, 1, 0, 0] := by cbv
  obtain ⟨t, -, -, -, hperm, -, -, hvalidate⟩ :=
    walks_agree g hacyclic hclosed 2 (by decide)
  obtain ⟨entries, hentries, hrepeats⟩ := hvalidate hops
  refine ⟨hacyclic, hclosed, by decide, hops, hstack, hqueue, hperm, by cbv,
    entries, hentries, (hrepeats .depthFirst).2 ?_⟩
  rw [hstack]
  decide

end Formula.Graph
