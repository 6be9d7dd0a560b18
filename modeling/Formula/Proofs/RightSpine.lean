/-
The right spine, told from below.  Climbing goes by parents, and it stops
where there is none; the right spine is what right operands lead to from
the top.  In a graph of any shape the one says nothing about the other,
and a climb need not end.  Below a node where validation finds nothing
they agree, and the climb is shorter than the graph has nodes
(`onRightSpine_iff_reachesRight`).

# What validation leaves

The search looks at nodes one by one, but as every place must be new to
it, what it has looked at without a word is tied together all the way
down: each operand has its owner as its parent, and no node is both
operands of another (`Clean`, `clean_of_violationsFrom`).  Operators are
not looked at, so an operator node may lack its operator here.

# The climb

A path down is climbed one link at a time, since every operand leads back
to the owner that the path came from; the climb goes on from right
operands and ends at the first left one (`climb_follow`).  Paths are short
because there are no cycles: if a node were on one, so would be its owner,
and so on up to the top, which has no parent (`TiedBelow.acyclicBelow`).
-/
import Formula.Proofs.Graph.Acyclic
import Formula.Proofs.Plan.Spine
import Formula.Proofs.Plan.Violations
import Mathlib.Data.List.Induction

namespace Formula.Graph

/-- Some path of right operands alone leads from one node to another. -/
def ReachesRight (g : Graph) (h r : Ref) : Prop :=
  ∃ path, (∀ side ∈ path, side = .right) ∧ g.follow h path = some r

/-- Every operand of a node has it as its parent, and none is both its
operands. -/
structure Tied (g : Graph) (r : Ref) : Prop where
  back : ∀ side c, g.operand? r side = some c → g.parent? c = some r
  apart : ∀ c, g.operand? r .left = some c → g.operand? r .right ≠ some c

/-- A stack of places, new and different, below which every node is
tied. -/
structure Clean (g : Graph) (seen stack : List Ref) : Prop where
  distinct : stack.Nodup
  fresh : ∀ s ∈ stack, s ∉ seen
  tied : ∀ s ∈ stack, ∀ x, g.Reaches s x → g.Tied x

/-- A node without a parent below which every node is tied. -/
structure TiedBelow (g : Graph) (top : Ref) : Prop where
  parent : g.parent? top = none
  tied : ∀ x, g.Reaches top x → g.Tied x

variable {g : Graph} {seen stack : List Ref} {top r : Ref} {path : List Side}

-- ========================================== where the search finds nothing

theorem tied_of_value {x : Float} (hc : g.content? r = some (.value x)) :
    g.Tied r := by
  have hnone : ∀ side, g.operand? r side = none := operand?_eq_of_content? hc
  refine ⟨fun side c h => ?_, fun c h => ?_⟩
  · rw [hnone] at h
    cases h
  · rw [hnone] at h
    cases h

theorem tied_of_operator {op : Option Operator} {l t : Ref}
    (hc : g.content? r = some (.operator op (some l) (some t)))
    (hl : g.parent? l = some r) (ht : g.parent? t = some r) (hne : t ≠ l) :
    g.Tied r := by
  obtain ⟨hleft, hright⟩ := operand?_of_content? hc
  refine ⟨fun side c h => ?_, fun c h h' => hne ?_⟩
  · cases side with
    | left => exact Option.some.inj (hleft.symm.trans h) ▸ hl
    | right => exact Option.some.inj (hright.symm.trans h) ▸ ht
  · exact Option.some.inj ((hright.symm.trans h').trans (h.symm.trans hleft))

/-- A new place whose operands are next on a clean stack. -/
theorem Clean.cons (next : List Ref)
    (h : g.Clean (r :: seen) (next ++ stack)) (hnew : r ∉ seen)
    (hr : g.Tied r) (hnext : ∀ c ∈ g.operands r, c ∈ next) :
    g.Clean seen (r :: stack) where
  distinct := by
    obtain ⟨-, hstack, -⟩ := List.nodup_append.1 h.distinct
    refine List.nodup_cons.2 ⟨fun hmem => ?_, hstack⟩
    exact h.fresh r (List.mem_append_right _ hmem) (List.mem_cons_self ..)
  fresh := by
    refine List.forall_mem_cons.2 ⟨hnew, fun s hs hmem => ?_⟩
    exact h.fresh s (List.mem_append_right _ hs) (List.mem_cons_of_mem _ hmem)
  tied := by
    refine List.forall_mem_cons.2 ⟨fun x hx => ?_, fun s hs => ?_⟩
    · rcases reaches_iff.1 hx with rfl | ⟨side, c, hc, hreach⟩
      · exact hr
      · have hmem : c ∈ next := hnext c (mem_operands_iff.2 ⟨side, hc⟩)
        exact h.tied c (List.mem_append_left _ hmem) x hreach
    · exact h.tied s (List.mem_append_right _ hs)

/-- A search that finds nothing has a clean stack. -/
theorem clean_of_violationsFrom (hstack : ∀ r ∈ stack, r < g.size)
    (h : g.violationsFrom seen stack = []) : g.Clean seen stack := by
  fun_induction violationsFrom g seen stack with
  | case1 => exact ⟨.nil, List.forall_mem_nil _, List.forall_mem_nil _⟩
  | case2 => cases h
  | case3 seen r stack _ hnone =>
      exact absurd hnone (content?_ne_none (hstack r (List.mem_cons_self ..)))
  | case4 seen r stack hnew x hc ih =>
      have hclean := ih (fun s hs => hstack s (List.mem_cons_of_mem _ hs)) h
      refine hclean.cons [] hnew (tied_of_value hc) fun c hmem => ?_
      rwa [operands_of_content? hc] at hmem
  | case5 => cases h
  | case6 seen r stack hnew op left right hc ih =>
      obtain ⟨l, t, rfl, rfl, hl, ht, hrest⟩ := exists_operands_of_violations h
      have hclean := ih (lt_size_of_operands hl ht hstack) hrest
      -- both are on the stack, and nothing is on it twice
      obtain ⟨hnot, -⟩ := List.nodup_cons.1 hclean.distinct
      have hr := tied_of_operator hc hl ht (List.ne_of_not_mem_cons hnot)
      refine hclean.cons [t, l] hnew hr fun c hmem => ?_
      rw [operands_of_content? hc] at hmem
      exact (List.Perm.swap t l []).mem_iff.1 hmem

theorem tiedBelow_of_violations (hr : r < g.size)
    (h : g.violations (some r) = []) : g.TiedBelow r := by
  obtain ⟨hparent, hsearch⟩ := violations_eq_nil_iff.1 h
  have hclean := clean_of_violationsFrom (by simpa using hr) hsearch
  exact ⟨hparent, hclean.tied r (List.mem_singleton_self r)⟩

/-- A graph that is found valid has nothing wrong with it, whether or not
all of its nodes could have been named. -/
theorem violations_eq_nil_of_isValid {root : Option Ref}
    (h : g.isValid root = .ok true) : g.violations root = [] := by
  unfold isValid validate at h
  cases hfound : g.violations root with
  | nil => rfl
  | cons v rest =>
      -- however the wording goes, it does not come to an empty list
      rw [hfound, List.mapM_cons] at h
      generalize g.describe v = first, rest.mapM g.describe = others at h
      cases first <;> cases others <;> cases h

-- ================================================================ the climb

/-- From an operand of a tied node the climb goes on at the node if it is
the right one, and ends if it is the left one. -/
theorem Tied.climb_operand {c : Ref} {side : Side} (h : g.Tied r)
    (hc : g.operand? r side = some c) (n : Nat) :
    g.climb (n + 1) c = if side = .right then g.climb n r else .ok false := by
  have hback : g.parent? c = some r := h.back side c hc
  obtain ⟨op, left, right, hcontent⟩ := exists_operator_of_operand? hc
  have hnode := node?_of_content? hcontent
  have hright : g.operand? r .right = right := (operand?_of_content? hcontent).2
  cases side with
  | left =>
      refine (climb_other hback hnode ?_).trans (if_neg nofun).symm
      exact hright ▸ h.apart c hc
  | right =>
      obtain rfl : right = some c := hright.symm.trans hc
      exact (climb_right hback hnode).trans (if_pos rfl).symm

/-- Climbing from the end of a path retraces it if it goes by right
operands alone, and ends on the way if it does not. -/
theorem climb_follow (h : ∀ x, g.Reaches top x → g.Tied x)
    (hpath : g.follow top path = some r) (n : Nat) :
    g.climb (n + path.length) r
      = if ∀ side ∈ path, side = .right then g.climb n top else .ok false := by
  induction path generalizing top n with
  | nil =>
      rw [Option.some.inj hpath, if_pos (List.forall_mem_nil _)]
      rfl
  | cons side path ih =>
      obtain ⟨c, hc, hrest⟩ := operand?_of_follow hpath
      have hbelow : ∀ x, g.Reaches c x → g.Tied x := fun x hx =>
        h x ((reaches_of_operand? hc).trans hx)
      have hlast := (h top ⟨[], rfl⟩).climb_operand hc n
      rw [List.length_cons, show n + (path.length + 1) = n + 1 + path.length by
        omega, ih hbelow hrest (n + 1), hlast]
      simp only [List.forall_mem_cons]
      by_cases hside : side = .right <;> simp [hside]

/-- The top is nobody's operand. -/
theorem TiedBelow.operand?_ne_top (h : g.TiedBelow top) {owner : Ref}
    (howner : g.Reaches top owner) (side : Side) :
    g.operand? owner side ≠ some top := by
  intro htop
  have hback := (h.tied owner howner).back side top htop
  rw [h.parent] at hback
  cases hback

/-- A node has one owner. -/
theorem TiedBelow.owner_unique (h : g.TiedBelow top) {owner owner' : Ref}
    {side side' : Side} (howner : g.Reaches top owner)
    (howner' : g.Reaches top owner') (hr : g.operand? owner side = some r)
    (hr' : g.operand? owner' side' = some r) : owner = owner' := by
  have hback := (h.tied owner howner).back side r hr
  have hback' := (h.tied owner' howner').back side' r hr'
  exact Option.some.inj (hback.symm.trans hback')

/-- Below a top without a parent nothing leads back to itself. -/
theorem TiedBelow.acyclicBelow (h : g.TiedBelow top) : g.AcyclicBelow top := by
  intro s cycle hs hcycle
  obtain ⟨path, hpath⟩ := hs
  -- on the path down to the cycle: the last owner is on the cycle too
  induction path using List.reverseRecOn generalizing s cycle with
  | nil =>
      obtain rfl : top = s := Option.some.inj hpath
      rcases List.eq_nil_or_concat cycle with rfl | ⟨cycle, side, rfl⟩
      · rfl
      · rw [List.concat_eq_append] at hcycle
        obtain ⟨owner, howner, htop⟩ := exists_owner_of_follow hcycle
        exact absurd htop (h.operand?_ne_top ⟨cycle, howner⟩ side)
  | append_singleton path side ih =>
      obtain ⟨owner, howner, hs⟩ := exists_owner_of_follow hpath
      rcases List.eq_nil_or_concat cycle with rfl | ⟨cycle, side', rfl⟩
      · rfl
      · rw [List.concat_eq_append] at hcycle
        obtain ⟨owner', howner', hs'⟩ := exists_owner_of_follow hcycle
        have hbelow : g.Reaches top owner' :=
          Reaches.trans ⟨_, hpath⟩ ⟨cycle, howner'⟩
        obtain rfl := h.owner_unique ⟨path, howner⟩ hbelow hs hs'
        have hround : g.follow owner (side :: cycle) = some owner :=
          (follow_cons cycle hs).trans howner'
        cases ih owner (side :: cycle) hround howner

/-- What points back to an owner is a node of the graph. -/
theorem TiedBelow.lt_size (h : g.TiedBelow top) (htop : top < g.size)
    (hr : g.Reaches top r) : r < g.size := by
  by_cases hne : r = top
  · exact hne ▸ htop
  · obtain ⟨owner, side, howner, hside⟩ := hr.exists_owner hne
    exact lt_size_of_parent? ((h.tied owner howner).back side r hside)

/-- Allowed as many steps as the graph has nodes, the climb comes to an
answer, and the answer is whether the path goes by right operands alone. -/
theorem TiedBelow.climb_eq (h : g.TiedBelow top) (htop : top < g.size)
    (hpath : g.follow top path = some r) {allowance : Nat}
    (henough : g.size ≤ allowance) :
    g.climb allowance r = .ok (decide (∀ side ∈ path, side = .right)) := by
  have hshort : path.length < g.size :=
    h.acyclicBelow.length_lt hpath (h.lt_size htop ⟨path, hpath⟩)
  obtain ⟨n, rfl⟩ : ∃ n, allowance = n + 1 + path.length :=
    ⟨allowance - path.length - 1, by omega⟩
  rw [climb_follow h.tied hpath, climb_top h.parent]
  by_cases hright : ∀ side ∈ path, side = .right
  · rw [if_pos hright, decide_eq_true hright]
  · rw [if_neg hright, decide_eq_false hright]

-- =============================================================== the answer

/-- A graph is valid below some top only, and from every node below that
the climb ends, with the same answer however much more it is allowed, and
tells whether the node is reached from the top by right operands alone. -/
theorem onRightSpine_iff_reachesRight (g : Graph) (root : Option Ref)
    (hroot : ∀ r, root = some r → r < g.size)
    (hvalid : g.isValid root = .ok true) :
    ∃ top, root = some top ∧ ∀ r, g.Reaches top r →
      ∃ answer, g.onRightSpine r = .ok answer
        ∧ (∀ allowance, g.size ≤ allowance →
          g.climb allowance r = .ok answer)
        ∧ (answer = true ↔ g.ReachesRight top r) := by
  have hfound := violations_eq_nil_of_isValid hvalid
  cases root with
  | none => cases hfound
  | some top =>
      have htop : top < g.size := hroot top rfl
      have htied := tiedBelow_of_violations htop hfound
      refine ⟨top, rfl, fun r hr => ?_⟩
      obtain ⟨path, hpath⟩ := hr
      have hclimb : ∀ allowance, g.size ≤ allowance → g.climb allowance r
          = .ok (decide (∀ side ∈ path, side = .right)) :=
        fun _ henough => htied.climb_eq htop hpath henough
      have hspine := hclimb g.size (Nat.le_refl _)
      refine ⟨_, hspine, hclimb, fun hright => ?_, fun hreach => ?_⟩
      · exact ⟨path, of_decide_eq_true hright, hpath⟩
      · -- the climb is the same, whichever path it is taken to retrace
        obtain ⟨path', hright, hpath'⟩ := hreach
        have hspine' := htied.climb_eq htop hpath' (Nat.le_refl _)
        rw [Except.ok.inj (hspine.symm.trans hspine')]
        exact decide_eq_true hright

/-- A sum whose right operand lacks its operator: of the operands of that
one, the right one is on the spine and the left one is not. -/
theorem onRightSpine_iff_reachesRight_bare :
    let g : Graph := ⟨#[⟨.value 1, some 4⟩, ⟨.value 2, some 3⟩,
      ⟨.value 3, some 3⟩, ⟨.operator none (some 1) (some 2), some 4⟩,
      ⟨.operator (some .add) (some 0) (some 3), none⟩]⟩
    4 < g.size ∧ g.isValid (some 4) = .ok true
      ∧ g.Reaches 4 1 ∧ g.onRightSpine 1 = .ok false ∧ ¬ g.ReachesRight 4 1
      ∧ g.Reaches 4 2 ∧ g.onRightSpine 2 = .ok true ∧ g.ReachesRight 4 2 := by
  intro g
  have hvalid : g.isValid (some 4) = .ok true := by cbv
  have hleft : g.Reaches 4 1 := ⟨[.right, .left], rfl⟩
  have hright : g.Reaches 4 2 := ⟨[.right, .right], rfl⟩
  have hno : g.onRightSpine 1 = .ok false := by cbv
  have hyes : g.onRightSpine 2 = .ok true := by cbv
  obtain ⟨_, ⟨⟩, htells⟩ := onRightSpine_iff_reachesRight g (some 4) (by
    rintro r ⟨⟩
    decide) hvalid
  obtain ⟨no, hno', -, hnone⟩ := htells 1 hleft
  obtain ⟨yes, hyes', -, hsome⟩ := htells 2 hright
  obtain rfl : false = no := Except.ok.inj (hno.symm.trans hno')
  obtain rfl : true = yes := Except.ok.inj (hyes.symm.trans hyes')
  exact ⟨by decide, hvalid, hleft, hno, fun h => Bool.false_ne_true (hnone.2 h),
    hright, hyes, hsome.1 rfl⟩

end Formula.Graph
