/-
Trees outlive what is let go around them.  The nodes that stay are those
that operand links lead to from what is held (`mem_reach_iff`).  They are
closed under operand links (`reach_closed`), so with the top of a tree all
of it stays, and the only parent link that may be forgotten is the one
that leads out of it (`Stands.release`).  A whole tree has none such: it
is held as before by whoever holds its root (`Holds.release`).
-/
import Formula.Graph.Release
import Formula.Proofs.Plan.Violations

namespace Formula.Graph

variable {g : Graph} {up : Option Ref} {p : Plan} {r : Ref} {found stack : List Ref}

-- ============================================================ what stays

theorem subset_reach (g : Graph) (found stack : List Ref) :
    found ⊆ g.reach found stack := by
  fun_induction reach g found stack with
  | case1 => exact List.Subset.refl _
  | case2 found r stack _ ih => exact ih
  | case3 found r stack _ _ ih => exact ih
  | case4 found r stack _ c _ ih =>
      exact fun s hs => ih (List.mem_cons_of_mem r hs)

/-- What waits on the stack is found, if it is a node at all. -/
theorem mem_reach_of_mem (hr : r ∈ stack) (hin : r < g.size) :
    r ∈ g.reach found stack := by
  fun_induction reach g found stack with
  | case1 => cases hr
  | case2 found s stack hs ih =>
      rcases List.mem_cons.1 hr with rfl | hr
      · exact subset_reach g found stack hs
      · exact ih hr
  | case3 found s stack _ hnone ih =>
      rcases List.mem_cons.1 hr with rfl | hr
      · exact absurd hnone (content?_ne_none hin)
      · exact ih hr
  | case4 found s stack _ c _ ih =>
      rcases List.mem_cons.1 hr with rfl | hr
      · exact subset_reach g _ _ (List.mem_cons_self ..)
      · exact ih (List.mem_append_right _ hr)

/-- The search keeps the operands of what it has found on the stack, until
it has found them too. -/
theorem reach_closed
    (h : ∀ r ∈ found, ∀ c ∈ g.operands r, c < g.size → c ∈ found ∨ c ∈ stack) :
    ∀ r ∈ g.reach found stack, ∀ c ∈ g.operands r, c < g.size →
      c ∈ g.reach found stack := by
  fun_induction reach g found stack with
  | case1 found =>
      intro r hr c hc hin
      exact (h r hr c hc hin).resolve_right List.not_mem_nil
  | case2 found s stack hs ih =>
      refine ih fun r hr c hc hin => ?_
      rcases h r hr c hc hin with hmem | hmem
      · exact Or.inl hmem
      · rcases List.mem_cons.1 hmem with rfl | hmem
        · exact Or.inl hs
        · exact Or.inr hmem
  | case3 found s stack _ hnone ih =>
      refine ih fun r hr c hc hin => ?_
      rcases h r hr c hc hin with hmem | hmem
      · exact Or.inl hmem
      · rcases List.mem_cons.1 hmem with rfl | hmem
        · exact absurd hnone (content?_ne_none hin)
        · exact Or.inr hmem
  | case4 found s stack _ content hcontent ih =>
      refine ih fun r hr c hc hin => ?_
      rcases List.mem_cons.1 hr with rfl | hr
      · rw [operands, hcontent] at hc
        exact Or.inr (List.mem_append_left _ hc)
      · rcases h r hr c hc hin with hmem | hmem
        · exact Or.inl (List.mem_cons_of_mem _ hmem)
        · rcases List.mem_cons.1 hmem with rfl | hmem
          · exact Or.inl (List.mem_cons_self ..)
          · exact Or.inr (List.mem_append_right _ hmem)

theorem operand_mem_reach {held : List Ref} {c : Ref}
    (hr : r ∈ g.reach [] held) (hc : c ∈ g.operands r) (hin : c < g.size) :
    c ∈ g.reach [] held := by
  refine reach_closed ?_ r hr c hc hin
  exact nofun

theorem mem_reach_of_follow {held : List Ref} {s : Ref} {path : List Side}
    (hs : s ∈ g.reach [] held) (hpath : g.follow s path = some r)
    (hr : r < g.size) : r ∈ g.reach [] held := by
  induction path generalizing s with
  | nil => exact Option.some.inj hpath ▸ hs
  | cons side path ih =>
      obtain ⟨c, hc, hrest⟩ := operand?_of_follow hpath
      have hmem := operand_mem_reach hs (mem_operands_iff.2 ⟨side, hc⟩)
      exact ih (hmem (lt_size_of_follow hrest hr)) hrest

/-- Nothing is found but what the stack leads to. -/
theorem reaches_of_mem_reach (hr : r ∈ g.reach found stack) :
    r ∈ found ∨ (r < g.size ∧ ∃ s ∈ stack, g.Reaches s r) := by
  fun_induction reach g found stack with
  | case1 => exact Or.inl hr
  | case2 found s stack _ ih | case3 found s stack _ _ ih =>
      refine (ih hr).imp_right fun ⟨hin, t, ht, hreach⟩ => ?_
      exact ⟨hin, t, List.mem_cons_of_mem s ht, hreach⟩
  | case4 found s stack _ content hcontent ih =>
      rcases ih hr with hmem | ⟨hin, t, ht, hreach⟩
      · rcases List.mem_cons.1 hmem with rfl | hmem
        · exact Or.inr ⟨lt_size_of_content? hcontent, r,
            List.mem_cons_self .., [], rfl⟩
        · exact Or.inl hmem
      · refine Or.inr ⟨hin, ?_⟩
        rw [← operands_of_content? hcontent] at ht
        rcases List.mem_append.1 ht with ht | ht
        · obtain ⟨side, hside⟩ := mem_operands_iff.1 ht
          exact ⟨s, List.mem_cons_self ..,
            (reaches_of_operand? hside).trans hreach⟩
        · exact ⟨t, List.mem_cons_of_mem s ht, hreach⟩

/-- The nodes that stay are those that operand links lead to from what is
held. -/
theorem mem_reach_iff {held : List Ref} :
    r ∈ g.reach [] held ↔ r < g.size ∧ ∃ s ∈ held, g.Reaches s r := by
  constructor
  · exact fun h => (reaches_of_mem_reach h).resolve_left List.not_mem_nil
  · rintro ⟨hr, s, hs, path, hpath⟩
    have hstart : s ∈ g.reach [] held :=
      mem_reach_of_mem hs (lt_size_of_follow hpath hr)
    exact mem_reach_of_follow hstart hpath hr

/-- A plan stays as a whole. -/
theorem Stands.mem_reach {held : List Ref} (hp : g.Stands up p)
    (htop : p.top = some r) (hr : r ∈ g.reach [] held) :
    ∀ s ∈ p.refs, s ∈ g.reach [] held := by
  induction p generalizing up r with
  | vacant => exact nofun
  | leaf q x =>
      cases htop
      simpa [Plan.refs] using hr
  | node q op left right ihl ihr =>
      cases htop
      have hops := hp.operands_node
      obtain ⟨-, hl, ht⟩ := hp
      intro s hs
      rcases Plan.mem_refs_node.1 hs with hs | rfl | hs
      · obtain ⟨c, hc⟩ := Plan.exists_top_of_mem hs
        have hmem : c ∈ g.operands q := by simp [hops, hc]
        have hin := hl.lt_size (Plan.mem_refs_of_top hc)
        exact ihl hl hc (operand_mem_reach hr hmem hin) s hs
      · exact hr
      · obtain ⟨c, hc⟩ := Plan.exists_top_of_mem hs
        have hmem : c ∈ g.operands q := by simp [hops, hc]
        have hin := ht.lt_size (Plan.mem_refs_of_top hc)
        exact ihr ht hc (operand_mem_reach hr hmem hin) s hs

-- ========================================================= what is kept

theorem node?_release (g : Graph) (held : List Ref) (r : Ref) :
    (g.release held).node? r = (g.node? r).map fun n =>
      { n with parent := n.parent.filter (· ∈ g.reach [] held) } :=
  Array.getElem?_map

theorem content?_release (g : Graph) (held : List Ref) (r : Ref) :
    (g.release held).content? r = g.content? r := by
  unfold content?
  rw [node?_release, Option.map_map]
  rfl

theorem reaches_release {held : List Ref} {s : Ref} :
    (g.release held).Reaches s r ↔ g.Reaches s r := by
  have hsame : ∀ path s, (g.release held).follow s path = g.follow s path := by
    intro path
    induction path with
    | nil => exact fun s => rfl
    | cons side path ih =>
        intro s
        simp only [follow, operand?, content?_release, ih]
  unfold Reaches
  simp only [hsame]

/-- A plan of places that stay stands as before, but for a parent of its
top that is forgotten. -/
theorem Stands.release {held : List Ref} (hp : g.Stands up p)
    (hstay : ∀ r ∈ p.refs, r ∈ g.reach [] held) :
    (g.release held).Stands (up.filter (· ∈ g.reach [] held)) p := by
  induction p generalizing up with
  | vacant => trivial
  | leaf r x =>
      show (g.release held).node? r = _
      rw [node?_release, hp]
      rfl
  | node r op left right ihl ihr =>
      obtain ⟨hr, hl, ht⟩ := hp
      have hkept : (some r).filter (· ∈ g.reach [] held) = some r := by
        have hmem := hstay r (Plan.mem_refs_node.2 (Or.inr (Or.inl rfl)))
        simp [hmem]
      have hleft := ihl hl fun s hs => hstay s (Plan.mem_refs_node.2 (Or.inl hs))
      have hright := ihr ht fun s hs =>
        hstay s (Plan.mem_refs_node.2 (Or.inr (Or.inr hs)))
      rw [hkept] at hleft hright
      refine ⟨?_, hleft, hright⟩
      rw [node?_release, hr]
      rfl

/-- A tree is there as long as its root is held. -/
theorem Holds.release {root : Option Ref} {t : Tree} (h : g.Holds root t)
    {held : List Ref} (hroot : ∀ r, root = some r → r ∈ held) :
    (g.release held).Holds root t := by
  obtain ⟨r, rfl, -⟩ := h.exists_root
  obtain ⟨p, htop, ht, hd, hp⟩ := h
  have hin := hp.lt_size (Plan.mem_refs_of_top htop)
  have hstay := hp.mem_reach htop (mem_reach_of_mem (hroot r rfl) hin)
  exact ⟨p, htop, ht, hd, hp.release hstay⟩

end Formula.Graph
