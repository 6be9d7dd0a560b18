/-
Graphs without cycles.  No path of operands leads from a node back to
itself, so a path meets every node at most once and has fewer links than
the graph has nodes (`AcyclicBelow.length_lt`, which asks this of the
nodes below the start only).  That is why an allowance of as many links
as there are nodes is enough for everything that walks a graph: below no
place is there a path that uses it up (`Acyclic.within`).

Nodes may be shared, operands and operators may be missing.
-/
import Formula.Proofs.Plan.Path

namespace Formula.Graph

variable {g : Graph} {n : Nat} {r : Option Ref}

/-- Only the empty path leads from a node to itself. -/
def Acyclic (g : Graph) : Prop :=
  ∀ r path, g.follow r path = some r → path = []

/-- Below a node only the empty path leads from a node to itself. -/
def AcyclicBelow (g : Graph) (r : Ref) : Prop :=
  ∀ s path, g.Reaches r s → g.follow s path = some s → path = []

/-- Every path from a place to a node has fewer links than allowed. -/
def Within (g : Graph) (n : Nat) (r : Option Ref) : Prop :=
  ∀ top, r = some top → ∀ path s, g.follow top path = some s → s < g.size →
    path.length < n

-- =========================================================== long paths

theorem Acyclic.below (h : g.Acyclic) (r : Ref) : g.AcyclicBelow r :=
  fun s path _ => h s path

theorem AcyclicBelow.operand {r c : Ref} {side : Side}
    (h : g.AcyclicBelow r) (hc : g.operand? r side = some c) :
    g.AcyclicBelow c := fun s path hs =>
  h s path ((reaches_of_operand? hc).trans hs)

/-- The nodes on a path are distinct: one that came up again would be on
a cycle. -/
theorem AcyclicBelow.exists_trail {r s : Ref} {path : List Side}
    (h : g.AcyclicBelow r) (hpath : g.follow r path = some s) (hs : s < g.size) :
    ∃ trail : List Ref, trail.length = path.length + 1 ∧ trail.Nodup
      ∧ ∀ x ∈ trail, x < g.size ∧ g.Reaches r x := by
  induction path generalizing r with
  | nil =>
      injection hpath with hpath
      subst hpath
      refine ⟨[r], rfl, by simp, fun x hx => ?_⟩
      rw [List.mem_singleton.1 hx]
      exact ⟨hs, [], rfl⟩
  | cons side path ih =>
      obtain ⟨c, hc, hrest⟩ := operand?_of_follow hpath
      obtain ⟨trail, hlength, hnodup, htrail⟩ := ih (h.operand hc) hrest
      have hbelow : ∀ x ∈ trail, ∃ path, g.follow r (side :: path) = some x := by
        intro x hx
        obtain ⟨path, hx⟩ := (htrail x hx).2
        exact ⟨path, (follow_cons path hc).trans hx⟩
      refine ⟨r :: trail, by rw [List.length_cons, hlength, List.length_cons],
        List.nodup_cons.2 ⟨fun hmem => ?_, hnodup⟩,
        List.forall_mem_cons.2 ⟨⟨lt_size_of_operand? hc, [], rfl⟩, ?_⟩⟩
      · obtain ⟨path, hcycle⟩ := hbelow r hmem
        exact List.cons_ne_nil _ _ (h r _ ⟨[], rfl⟩ hcycle)
      · intro x hx
        obtain ⟨path, hx'⟩ := hbelow x hx
        exact ⟨(htrail x hx).1, side :: path, hx'⟩

theorem AcyclicBelow.length_lt {r s : Ref} {path : List Side}
    (h : g.AcyclicBelow r) (hpath : g.follow r path = some s)
    (hs : s < g.size) : path.length < g.size := by
  obtain ⟨trail, hlength, hnodup, htrail⟩ := h.exists_trail hpath hs
  have hsub : trail ⊆ List.range g.size := fun x hx =>
    List.mem_range.2 (htrail x hx).1
  have hle := hnodup.length_le_of_subset hsub
  rw [hlength, List.length_range] at hle
  exact hle

theorem Acyclic.length_lt (h : g.Acyclic) {r s : Ref} {path : List Side}
    (hpath : g.follow r path = some s) (hs : s < g.size) :
    path.length < g.size := (h.below r).length_lt hpath hs

theorem AcyclicBelow.within {top : Ref} (h : g.AcyclicBelow top) :
    g.Within g.size (some top) := by
  rintro _ ⟨⟩ path s hpath hs
  exact h.length_lt hpath hs

theorem Acyclic.within (h : g.Acyclic) (r : Option Ref) :
    g.Within g.size r := fun _ _ _ _ hpath hs => h.length_lt hpath hs

/-- Below the top of a plan with distinct places there is no cycle: going
round it would be a second way to the same place. -/
theorem Stands.acyclicBelow {up : Option Ref} {p : Plan} {top : Ref}
    (hp : g.Stands up p) (hd : p.refs.Nodup) (htop : p.top = some top) :
    g.AcyclicBelow top := by
  rintro s path ⟨way, hway⟩ hpath
  have hround : g.follow top (way ++ path) = some s :=
    (follow_append path hway).trans hpath
  exact List.self_eq_append_right.1 (hp.path_unique hd htop hway hround)

-- ============================================================ one link

theorem operand?_of_content? {r : Ref} {op : Option Operator}
    {left right : Option Ref}
    (h : g.content? r = some (.operator op left right)) :
    g.operand? r .left = left ∧ g.operand? r .right = right := by
  unfold operand?
  rw [h]
  exact ⟨rfl, rfl⟩

/-- A link uses up one of the allowance. -/
theorem Within.operand {top : Ref} {side : Side}
    (h : g.Within (n + 1) (some top)) :
    g.Within n (g.operand? top side) := by
  intro c hc path s hpath hs
  have hlt := h top rfl (side :: path) s ((follow_cons path hc).trans hpath) hs
  rw [List.length_cons] at hlt
  omega

theorem Within.operands {op : Option Operator} {left right : Option Ref}
    (h : g.Within (n + 1) r)
    (hr : r.bind g.content? = some (.operator op left right)) :
    g.Within n left ∧ g.Within n right := by
  obtain ⟨top, rfl, htop⟩ := Option.bind_eq_some_iff.1 hr
  obtain ⟨hleft, hright⟩ := operand?_of_content? htop
  exact ⟨hleft ▸ h.operand, hright ▸ h.operand⟩

/-- Where nothing is allowed there is no node. -/
theorem Within.content?_zero (h : g.Within 0 r) : r.bind g.content? = none := by
  cases r with
  | none => rfl
  | some top =>
      by_contra hne
      obtain ⟨content, hcontent⟩ := Option.ne_none_iff_exists'.1 hne
      obtain ⟨node, hnode, -⟩ := Option.map_eq_some_iff.1 hcontent
      have hlt := h top rfl [] top rfl (lt_size_of_node? hnode)
      exact absurd hlt (Nat.not_lt_zero _)

-- ========================================================== descending

/-- A graph whose operands were all there before their owners has no
cycle. -/
theorem acyclic_of_lt (h : ∀ r side c, g.operand? r side = some c → c < r) :
    g.Acyclic := by
  have hdown : ∀ path r s, g.follow r path = some s → s ≤ r := by
    intro path
    induction path with
    | nil =>
        intro r s hpath
        injection hpath with hpath
        exact Nat.le_of_eq hpath.symm
    | cons side path ih =>
        intro r s hpath
        obtain ⟨c, hc, hrest⟩ := operand?_of_follow hpath
        exact Nat.le_trans (ih c s hrest) (Nat.le_of_lt (h r side c hc))
  intro r path hpath
  cases path with
  | nil => rfl
  | cons side path =>
      obtain ⟨c, hc, hrest⟩ := operand?_of_follow hpath
      have hlt := Nat.lt_of_le_of_lt (hdown path c r hrest) (h r side c hc)
      exact absurd hlt (Nat.lt_irrefl r)

end Formula.Graph
