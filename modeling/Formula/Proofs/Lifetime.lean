/-
Parts of a formula that outlive the rest of it.  A node is there as long
as operand links lead to it from something that is held.  Parent links
hold nothing: a node may be all that is left of a formula, with what is
below it, and then it has no parent any more.

# Moments

Time is a list of moments at which all that is not held is let go
(`Moment`).  In between, other nodes may come and change, and may come to
own nodes of the formula; the nodes of the formula itself are left alone
(`Passes`).  At a moment a part whose top is kept loses nothing but a
parent that is not (`Stands.after_filter`).  Over a run of moments the
part therefore stands as before if the parent was kept at every one
(`Passes.stands_kept`), and without a parent if at one it was not
(`Passes.stands_lost`).

# Parts

Below every node of a formula there is a `Part`.  A node other than the
root has an owner, which is its parent, and the owner is not in the part
(`Part.not_reaches_owner`): when only the part is kept, the owner is let
go.
-/
import Formula.Proofs.Builder.Readiness

namespace Formula

-- =============================================================== moments

/-- A moment at which what is not held is let go. -/
structure Moment where
  graph : Graph
  held : List Ref

namespace Moment

/-- Operand links lead to the node from something that is held. -/
def Keeps (m : Moment) (r : Ref) : Prop := ∃ h ∈ m.held, m.graph.Reaches h r

/-- The graph after the moment. -/
def after (m : Moment) : Graph := m.graph.release m.held

variable {m : Moment} {r : Ref}

theorem mem_reach_iff (hr : r < m.graph.size) :
    r ∈ m.graph.reach [] m.held ↔ m.Keeps r := by
  rw [Graph.mem_reach_iff]
  exact and_iff_right hr

theorem size_after (m : Moment) : m.after.size = m.graph.size :=
  Array.size_map

end Moment

namespace Graph

/-- A graph comes to be another through some moments, and between them
some nodes are left alone. -/
inductive Passes (alone : Ref → Prop) : Graph → List Moment → Graph → Prop
  | rest {g now : Graph} (h : ∀ r, alone r → now.node? r = g.node? r) :
      Passes alone g [] now
  | moment {g now : Graph} {m : Moment} {moments : List Moment}
      (h : ∀ r, alone r → m.graph.node? r = g.node? r)
      (hlater : Passes alone m.after moments now) :
      Passes alone g (m :: moments) now

variable {g now : Graph} {alone : Ref → Prop} {moments : List Moment}
variable {up : Option Ref} {p q : Plan} {n : Ref} {t : Tree}

theorem lt_size_of_node?_eq (h : now.node? n = g.node? n) (hn : n < g.size) :
    n < now.size := by
  have hnode : g.node? n = some g.nodes[n] := Array.getElem?_eq_getElem hn
  exact lt_size_of_node? (h.trans hnode)

-- ============================================================ one moment

/-- A part whose top stays loses nothing but a parent that does not. -/
theorem Stands.after_filter {m : Moment} (hq : m.graph.Stands up q)
    (htop : q.top = some n) (hkept : m.Keeps n) :
    m.after.Stands (up.filter (· ∈ m.graph.reach [] m.held)) q := by
  have hin := hq.lt_size (Plan.mem_refs_of_top htop)
  exact hq.release (hq.mem_reach htop ((Moment.mem_reach_iff hin).2 hkept))

theorem Stands.after_kept {m : Moment} (hq : m.graph.Stands up q)
    (htop : q.top = some n) (hkept : m.Keeps n)
    (hup : ∀ s ∈ up, s < m.graph.size ∧ m.Keeps s) : m.after.Stands up q := by
  have hafter := hq.after_filter htop hkept
  cases up with
  | none => exact hafter
  | some s =>
      obtain ⟨hs, hstays⟩ := hup s rfl
      have hmem := (Moment.mem_reach_iff hs).2 hstays
      rwa [Option.filter_some, if_pos (by simpa using hmem)] at hafter

theorem Stands.after_lost {m : Moment} {s : Ref}
    (hq : m.graph.Stands (some s) q) (htop : q.top = some n)
    (hkept : m.Keeps n) (hlost : ¬ m.Keeps s) : m.after.Stands none q := by
  have hafter := hq.after_filter htop hkept
  have hmem : s ∉ m.graph.reach [] m.held := fun h =>
    hlost (mem_reach_iff.1 h).2
  rwa [Option.filter_some, if_neg (by simpa using hmem)] at hafter

-- ========================================================= many moments

theorem Passes.stands_kept (h : Passes alone g moments now)
    (hq : g.Stands up q) (htop : q.top = some n)
    (halone : ∀ s ∈ q.refs, alone s) (hkept : ∀ m ∈ moments, m.Keeps n)
    (hup : ∀ s ∈ up, s < g.size ∧ alone s ∧ ∀ m ∈ moments, m.Keeps s) :
    now.Stands up q := by
  induction h with
  | rest h => exact hq.congr fun s hs => h s (halone s hs)
  | @moment g now m moments h _ ih =>
      obtain ⟨hfirst, hothers⟩ := List.forall_mem_cons.1 hkept
      have hmoment := hq.congr fun s hs => h s (halone s hs)
      have hin : ∀ s ∈ up, s < m.graph.size := fun s hs =>
        lt_size_of_node?_eq (h s (hup s hs).2.1) (hup s hs).1
      refine ih (hmoment.after_kept htop hfirst fun s hs => ?_) hothers
        fun s hs => ?_
      · exact ⟨hin s hs, (hup s hs).2.2 m (List.mem_cons_self ..)⟩
      · obtain ⟨-, hs', hstays⟩ := hup s hs
        refine ⟨m.size_after ▸ hin s hs, hs', fun m' hm' => ?_⟩
        exact hstays m' (List.mem_cons_of_mem _ hm')

theorem Passes.stands_lost {s : Ref} (h : Passes alone g moments now)
    (hq : g.Stands (some s) q) (htop : q.top = some n)
    (halone : ∀ s ∈ q.refs, alone s) (hkept : ∀ m ∈ moments, m.Keeps n)
    (hs : s < g.size) (hs' : alone s) (hlost : ∃ m ∈ moments, ¬ m.Keeps s) :
    now.Stands none q := by
  induction h with
  | rest =>
      obtain ⟨m, hm, -⟩ := hlost
      cases hm
  | @moment g now m moments h hlater ih =>
      obtain ⟨hfirst, hothers⟩ := List.forall_mem_cons.1 hkept
      have hmoment := hq.congr fun s hs => h s (halone s hs)
      by_cases hstays : m.Keeps s
      · have hin := lt_size_of_node?_eq (h s hs') hs
        have hafter := hmoment.after_kept htop hfirst (by
          rintro _ ⟨⟩
          exact ⟨hin, hstays⟩)
        refine ih hafter hothers (m.size_after ▸ hin) ?_
        obtain ⟨m', hm', hlost⟩ := hlost
        rcases List.mem_cons.1 hm' with rfl | hm'
        · exact absurd hstays hlost
        · exact ⟨m', hm', hlost⟩
      · -- once it is lost there is no parent to be kept or lost
        have hafter := hmoment.after_lost htop hfirst hstays
        exact hlater.stands_kept hafter htop halone hothers nofun

theorem Passes.content? (h : Passes alone g moments now) (hn : alone n) :
    now.content? n = g.content? n := by
  induction h with
  | rest h => unfold Graph.content?; rw [h n hn]
  | @moment g now m moments h _ ih =>
      rw [ih, Moment.after, content?_release]
      unfold Graph.content?
      rw [h n hn]

-- ================================================================ parts

/-- Below every planned place there is a part of the plan. -/
theorem Stands.exists_below (hp : g.Stands up p) (hc : p.Complete)
    (hd : p.refs.Nodup) (hn : n ∈ p.refs) :
    ∃ q, g.Below n q ∧ q.refs.Nodup ∧ q.refs ⊆ p.refs := by
  induction p generalizing up with
  | vacant => cases hn
  | leaf r x =>
      obtain rfl := List.mem_singleton.1 hn
      refine ⟨.leaf n x, ⟨rfl, trivial, ?_⟩, hd, List.Subset.refl _⟩
      rwa [hp.parent?_top rfl]
  | node r op left right ihl ihr =>
      obtain ⟨hdl, hdr, -⟩ := Plan.nodup_node hd
      rcases Plan.mem_refs_node.1 hn with hn | rfl | hn
      · obtain ⟨q, hq, hdq, hsub⟩ := ihl hp.2.1 hc.1 hdl hn
        exact ⟨q, hq, hdq, fun s hs => Plan.mem_refs_node.2 (.inl (hsub hs))⟩
      · refine ⟨_, ⟨rfl, hc, ?_⟩, hd, List.Subset.refl _⟩
        rwa [hp.parent?_top rfl]
      · obtain ⟨q, hq, hdq, hsub⟩ := ihr hp.2.2 hc.2 hdr hn
        exact ⟨q, hq, hdq,
          fun s hs => Plan.mem_refs_node.2 (.inr (.inr (hsub hs)))⟩

/-- What owns the top of a plan is not planned. -/
theorem Stands.owner_not_mem {s : Ref} {side : Side} (hq : g.Stands up q)
    (hd : q.refs.Nodup) (htop : q.top = some n)
    (hs : g.operand? s side = some n) : s ∉ q.refs := by
  intro hmem
  obtain ⟨path, hpath⟩ := hq.reaches htop hmem
  have hcycle : g.follow n (path ++ [side]) = some n :=
    (follow_append _ hpath).trans (follow_cons [] hs)
  have hnil : path ++ [side] = [] := hq.path_unique hd htop hcycle rfl
  simp at hnil

/-- The part below a node of a formula, by a plan, and the node's owner in
the formula. -/
structure Part (g : Graph) (root owner n : Ref) (q : Plan) : Prop where
  top : q.top = some n
  complete : q.Complete
  distinct : q.refs.Nodup
  stands : g.Stands (some owner) q
  inside : ∀ s ∈ q.refs, g.Reaches root s
  owned : ∃ side, g.operand? owner side = some n
  owner_inside : g.Reaches root owner

theorem Holds.exists_label {root : Ref} (h : g.Holds (some root) t)
    (hn : g.Reaches root n) : ∃ label, g.label (some n) = .ok label := by
  obtain ⟨p, htop, -, -, hp⟩ := h
  exact hp.exists_label ((hp.reaches_iff htop).1 hn)

theorem Holds.exists_part {root : Ref} (h : g.Holds (some root) t)
    (hn : g.Reaches root n) (hne : n ≠ root) :
    ∃ owner q, g.Part root owner n q := by
  obtain ⟨p, htop, htree, hd, hp⟩ := h
  have hplanned : ∀ {s}, g.Reaches root s ↔ s ∈ p.refs := hp.reaches_iff htop
  obtain ⟨owner, side, howner, hside⟩ := hn.exists_owner hne
  obtain ⟨q, ⟨hqtop, hc, hq⟩, hdq, hsub⟩ :=
    hp.exists_below (Plan.complete_of_tree? htree) hd (hplanned.1 hn)
  rw [(hp.operand?_mem (hplanned.1 howner) hside).2] at hq
  exact ⟨owner, q, hqtop, hc, hdq, hq, fun s hs => hplanned.2 (hsub hs),
    ⟨side, hside⟩, howner⟩

variable {root owner : Ref}

theorem Part.owner_lt_size (h : g.Part root owner n q) : owner < g.size := by
  obtain ⟨side, hside⟩ := h.owned
  exact lt_size_of_operand? hside

theorem Part.not_reaches_owner (h : g.Part root owner n q) :
    ¬ g.Reaches n owner := by
  obtain ⟨side, hside⟩ := h.owned
  rw [h.stands.reaches_iff h.top]
  exact h.stands.owner_not_mem h.distinct h.top hside

theorem Part.stands_kept (h : g.Part root owner n q)
    (hpasses : Passes (g.Reaches root) g moments now)
    (hkept : ∀ m ∈ moments, m.Keeps n)
    (howner : ∀ m ∈ moments, m.Keeps owner) : now.Stands (some owner) q := by
  refine hpasses.stands_kept h.stands h.top h.inside hkept ?_
  rintro _ ⟨⟩
  exact ⟨h.owner_lt_size, h.owner_inside, howner⟩

theorem Part.stands_lost (h : g.Part root owner n q)
    (hpasses : Passes (g.Reaches root) g moments now)
    (hkept : ∀ m ∈ moments, m.Keeps n)
    (hlost : ∃ m ∈ moments, ¬ m.Keeps owner) : now.Stands none q :=
  hpasses.stands_lost h.stands h.top h.inside hkept h.owner_lt_size
    h.owner_inside hlost

-- ============================================================== readings

/-- A formula as it is read at a node. -/
structure ReadAs (g : Graph) (n : Ref) (t : Tree) : Prop where
  evaluateReporting : ∀ log, (g.evaluateReporting log (some n)).2 = .ok t.value
  evaluateQuietly : ∀ c limit, g.evaluateQuietly c limit (some n)
    = if t.calls c ≤ limit then .ok t.value else .error (.fault .tooDeep)
  text : g.text (some n) = .ok t.text
  sizeBelow : g.sizeBelow (some n) = .ok t.size
  height : g.height (some n) = t.height

theorem Unfolds.readAs (h : g.Unfolds (some n) t) : g.ReadAs n t where
  evaluateReporting := h.evaluateReporting
  evaluateQuietly := h.evaluateQuietly
  text := h.text
  sizeBelow := h.sizeBelow
  height := h.height

/-- What is read does not depend on the parent. -/
theorem Part.readAs (h : g.Part root owner n q) (ht : q.tree? = some t)
    (hpasses : Passes (g.Reaches root) g moments now)
    (hkept : ∀ m ∈ moments, m.Keeps n) : now.ReadAs n t := by
  have hunfolds : now.Unfolds q.top t := by
    by_cases howner : ∀ m ∈ moments, m.Keeps owner
    · exact (h.stands_kept hpasses hkept howner).unfolds ht
    · have hlost : ∃ m ∈ moments, ¬ m.Keeps owner := by simpa using howner
      exact (h.stands_lost hpasses hkept hlost).unfolds ht
  rw [h.top] at hunfolds
  exact hunfolds.readAs

/-- Validation finds one thing wrong with a part that has a parent. -/
theorem Stands.violations_below {s : Ref} (hq : g.Stands (some s) q)
    (hc : q.Complete) (hd : q.refs.Nodup) (htop : q.top = some n) :
    g.violations (some n) = [.rootHasParent n] := by
  rw [hq.violations_eq hd htop, hc.gaps_eq_nil]
  rfl

theorem validate_rootHasParent {label : String}
    (h : g.violations (some n) = [.rootHasParent n])
    (hlabel : g.label (some n) = .ok label) :
    g.validate (some n) = .ok ["root " ++ label ++ " has a parent"] := by
  have hwords : g.describe (.rootHasParent n)
      = .ok ("root " ++ label ++ " has a parent") := by
    simp only [describe, hlabel]
    rfl
  unfold validate
  rw [h, List.mapM_cons, hwords]
  rfl

end Graph

-- ========================================================= what was read

/-- Every node of a formula that was read but its root has an owner, which
is its parent.  As time passes, the nodes of the formula left alone and
the node itself kept: while the owner is kept, validation reports of the
node that it has a parent, and nothing else; once nothing of the formula
is kept but what is below the node, it has no parent and is valid; and at
all times the same formula is read at it. -/
theorem parse_parts_outlive (log : Log) (g g' : Graph) (text : String)
    (inspection : Inspection) (root : Option Ref)
    (h : (parse log g text inspection).2 = .ok (g', root)) :
    ∃ r, root = some r ∧ ∀ n, g'.Reaches r n → n ≠ r →
      ∃ owner label t, g'.Reaches r owner
        ∧ (∃ side, g'.operand? owner side = some n)
        ∧ g'.label (some n) = .ok label
        ∧ ∀ moments now, Graph.Passes (g'.Reaches r) g' moments now →
          (∀ m ∈ moments, m.Keeps n) →
          ((∀ m ∈ moments, m.Keeps owner) →
            now.parent? n = some owner
              ∧ now.violations (some n) = [.rootHasParent n]
              ∧ now.validate (some n)
                = .ok ["root " ++ label ++ " has a parent"])
          ∧ ((∃ m ∈ moments, ∀ s, g'.Reaches r s → m.Keeps s →
              g'.Reaches n s) →
            now.parent? n = none ∧ now.violations (some n) = []
              ∧ now.validate (some n) = .ok [])
          ∧ now.ReadAs n t := by
  obtain ⟨first, rest, -, hholds⟩ := exists_holds_of_parse h
  obtain ⟨r, rfl, -⟩ := hholds.exists_root
  refine ⟨r, rfl, fun n hn hne => ?_⟩
  obtain ⟨owner, q, hpart⟩ := hholds.exists_part hn hne
  obtain ⟨t, ht⟩ := hpart.complete.exists_tree?
  obtain ⟨label, hlabel⟩ := hholds.exists_label hn
  refine ⟨owner, label, t, hpart.owner_inside, hpart.owned, hlabel, ?_⟩
  intro moments now hpasses hkept
  refine ⟨fun howner => ?_, fun ⟨m, hm, honly⟩ => ?_,
    hpart.readAs ht hpasses hkept⟩
  · have hnow := hpart.stands_kept hpasses hkept howner
    have hfound := hnow.violations_below hpart.complete hpart.distinct hpart.top
    have hlabel' : now.label (some n) = .ok label := by
      rw [← hlabel, Graph.label, Graph.label, Option.bind_some,
        Option.bind_some, hpasses.content? hn]
    exact ⟨hnow.parent?_top hpart.top, hfound,
      Graph.validate_rootHasParent hfound hlabel'⟩
  · -- the owner is not below the node, so it was let go
    have hlost : ¬ m.Keeps owner := fun hkeeps =>
      hpart.not_reaches_owner (honly owner hpart.owner_inside hkeeps)
    have hvalid : now.Holds (some n) t := ⟨q, hpart.top, ht, hpart.distinct,
      hpart.stands_lost hpasses hkept ⟨m, hm, hlost⟩⟩
    obtain ⟨_, ⟨⟩, hparent⟩ := hvalid.exists_root
    exact ⟨hparent, hvalid.violations_eq_nil, hvalid.validate⟩

/-- The product is held first by way of the sum, then by itself. -/
theorem parse_parts_outlive_product :
    ∃ g r n, (parse {} Graph.empty "1+2*3" .skip).2 = .ok (g, some r)
      ∧ g.operand? r .right = some n
      ∧ let whole : Moment := ⟨g, [r]⟩
        let part : Moment := ⟨whole.after, [n]⟩
        whole.after.validate (some n)
            = .ok ["root OperatorNode('*') has a parent"]
          ∧ whole.after.text (some n) = .ok "(2 * 3)"
          ∧ part.after.parent? n = none
          ∧ part.after.validate (some n) = .ok []
          ∧ part.after.text (some n) = .ok "(2 * 3)" := by
  let one : Numeral := ⟨"1", by decide +kernel⟩
  let pairs : List (Operator × Numeral) :=
    [(.add, ⟨"2", by decide +kernel⟩), (.mul, ⟨"3", by decide +kernel⟩)]
  have htokens : Token.tokenize "1+2*3" = alternate one pairs := by
    decide +kernel
  obtain ⟨g, r, hparse, hholds⟩ :=
    exists_parse_of_tokenize {} Graph.empty htokens
  let x (digits : String) := Tree.leaf (Literal.value digits.toList)
  let product : Tree := .node .mul (x "2") (x "3")
  obtain ⟨_, right, hr, -, hright⟩ : ∃ left right,
      g.content? r = some (.operator (some .add) left right)
        ∧ g.Unfolds left (x "1") ∧ g.Unfolds right product :=
    hholds.unfolds.exists_operands
  obtain ⟨n, rfl, -⟩ := hright.exists_lt_size
  obtain ⟨_, _, hn, -, -⟩ := hright.exists_operands
  have hside : g.operand? r .right = some n :=
    Graph.operand?_eq_of_content? hr .right
  have hreach := Graph.reaches_of_operand? hside
  have hne : n ≠ r := by
    rintro rfl
    cases hn.symm.trans hr
  obtain ⟨_, ⟨⟩, hparts⟩ := parse_parts_outlive _ _ _ _ _ _ hparse
  obtain ⟨owner, label, t, howner, -, hlabel, htime⟩ := hparts n hreach hne
  have hstar : Graph.labelOf .operator (Text.quoted Operator.mul.symbol)
      = label := by
    rw [Graph.label, Option.bind_some, hn] at hlabel
    exact Except.ok.inj hlabel
  have htext : t.text = "(2 * 3)" := by
    have hbefore := (htime [] g (.rest fun _ _ => rfl)
      (List.forall_mem_nil _)).2.2.text
    rw [hright.text] at hbefore
    rw [← Except.ok.inj hbefore]
    decide +kernel
  let whole : Moment := ⟨g, [r]⟩
  let part : Moment := ⟨whole.after, [n]⟩
  have hwhole : ∀ s, g.Reaches r s → ∀ m ∈ [whole], m.Keeps s := by
    simp only [List.forall_mem_singleton]
    exact fun s hs => ⟨r, List.mem_singleton_self r, hs⟩
  have hpart : ∀ m ∈ [whole, part], m.Keeps n :=
    List.forall_mem_cons.2 ⟨hwhole n hreach whole (List.mem_singleton_self _),
      List.forall_mem_singleton.2 ⟨n, List.mem_singleton_self n, [], rfl⟩⟩
  obtain ⟨hbefore, -, hread⟩ := htime [whole] whole.after
    (.moment (fun _ _ => rfl) (.rest fun _ _ => rfl)) (hwhole n hreach)
  obtain ⟨-, hafter, hread'⟩ := htime [whole, part] part.after
    (.moment (fun _ _ => rfl) (.moment (fun _ _ => rfl)
      (.rest fun _ _ => rfl))) hpart
  obtain ⟨-, -, hwords⟩ := hbefore (hwhole owner howner)
  obtain ⟨hparent, -, hempty⟩ := hafter
    ⟨part, by simp, fun s _ hkeeps => by
      obtain ⟨h, hh, hs⟩ := hkeeps
      rw [List.mem_singleton.1 hh] at hs
      exact Graph.reaches_release.1 hs⟩
  refine ⟨g, r, n, hparse, hside, ?_, ?_, hparent, hempty, ?_⟩
  · rw [hwords, ← hstar]
    decide +kernel
  · rw [hread.text, htext]
  · rw [hread'.text, htext]

end Formula
