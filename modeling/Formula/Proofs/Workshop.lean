/-
Workers that share a graph and a log do not get in each other's way.
However their calls are interleaved, each worker is answered what it would
have been answered alone, and ends with the tree it would have ended with,
up to the places of the nodes (`workers_do_not_interfere`).

# Apart

`Apart w plans`: every worker's builder has grown a plan in the common
graph, and no two plans share a place.  A call changes the nodes of its
own worker's plan and makes new ones (`Grown.call_frame`, `Apart.call`),
so the workers stay apart (`Apart.deed`).

# Mirrors

`Mirrors f g b q g' b'`: a builder in its graph has grown the plan `q`,
and another builder, in another graph, the renaming of `q` by `f`.  The
same call on both is answered alike, and leaves builders that mirror each
other (`Mirrors.call`).  A worker among others mirrors the same worker
alone: its own calls are made on both, and the others' calls change
nothing in its plan (`Apart.follows_deed`, `Apart.follows_after`).
-/
import Formula.Proofs.Plan.Path
import Formula.Proofs.Plan.Renaming
import Formula.Proofs.Worker.Transcript
import Formula.Session.Basic
import Mathlib.Data.List.Nodup

namespace Formula

-- ================================================== what a builder touches

namespace Graph

/-- Some way along the links, up or down, leads to a node from one that is
held. -/
inductive Touches (g : Graph) (held : List Ref) : Ref → Prop
  | held {r : Ref} (hr : r ∈ held) : Touches g held r
  | operand {r c : Ref} {side : Side} (hr : Touches g held r)
      (hc : g.operand? r side = some c) : Touches g held c
  | parent {r q : Ref} (hr : Touches g held r) (hq : g.parent? r = some q) :
      Touches g held q

/-- The parent of a planned node is planned, or what the plan stands
below. -/
theorem Stands.parent?_mem {g : Graph} {up : Option Ref} {p : Plan}
    (hp : g.Stands up p) {r q : Ref} (hr : r ∈ p.refs)
    (hq : g.parent? r = some q) : q ∈ p.refs ∨ up = some q := by
  induction p generalizing up with
  | vacant => cases hr
  | leaf s x =>
      rw [List.mem_singleton.1 hr, hp.parent?_top rfl] at hq
      exact .inr hq
  | node s op left right ihl ihr =>
      rw [Plan.mem_refs_node]
      have hself : some s = some q → q = s := fun h => (Option.some.inj h).symm
      rcases Plan.mem_refs_node.1 hr with hr | rfl | hr
      · exact .inl ((ihl hp.2.1 hr).imp_right fun h => .inl (hself h))
      · rw [hp.parent?_top rfl] at hq
        exact .inr hq
      · rcases ihr hp.2.2 hr with h | h
        · exact .inl (.inr (.inr h))
        · exact .inl (.inr (.inl (hself h)))

end Graph

namespace Builder

variable {f : Ref → Ref} {g g' : Graph} {b b' : Builder} {p q : Plan}

/-- A builder touches the nodes of its plan, and no others. -/
theorem Grown.mem_of_touches (h : Grown g b p) {r : Ref}
    (hr : g.Touches b.held r) : r ∈ p.refs := by
  induction hr with
  | held hr =>
      unfold held at hr
      rw [h.head, h.prev, h.history] at hr
      simp only [List.mem_append, Option.mem_toList] at hr
      rcases hr with (hr | hr) | hr
      · exact Plan.mem_refs_of_top hr
      · exact Plan.edge_subset_refs p (List.mem_of_getLast? hr)
      · exact Plan.operators_subset_refs p hr
  | operand _ hc ih => exact (h.stands.operand?_mem ih hc).1
  | parent _ hq ih =>
      exact (h.stands.parent?_mem ih hq).resolve_right nofun

/-- What a builder has grown is still there when other nodes change. -/
theorem Grown.congr (h : Grown g b p)
    (hsame : ∀ r ∈ p.refs, g'.node? r = g.node? r) : Grown g' b p :=
  { h with stands := h.stands.congr hsame }

-- ================================================================ mirrors

/-- One builder is the other with its nodes at other places: the same
state, and the same node wherever the other builder has one. -/
structure Copies (f : Ref → Ref) (g : Graph) (b : Builder) (g' : Graph)
    (b' : Builder) : Prop where
  builder : b' = b.rename f
  distinct : Set.InjOn f {r | g.Touches b.held r}
  nodes : ∀ r, g.Touches b.held r →
    ∃ node, g.node? r = some node ∧ g'.node? (f r) = some (node.rename f)

/-- A builder has grown a plan, and the other one its renaming. -/
structure Mirrors (f : Ref → Ref) (g : Graph) (b : Builder) (q : Plan)
    (g' : Graph) (b' : Builder) : Prop where
  grown : Grown g b q
  image : Grown g' b' (q.rename f)
  finalized : b'.finalized = b.finalized
  expected : b'.expected = b.expected
  position : b'.position = b.position

theorem Mirrors.copies (h : Mirrors f g b q g' b') : Copies f g b g' b' where
  builder := h.grown.eq_rename h.image h.finalized h.expected h.position
  distinct r hr s hs heq := by
    have hdistinct := h.image.distinct
    rw [Plan.refs_rename] at hdistinct
    exact List.inj_on_of_nodup_map hdistinct (h.grown.mem_of_touches hr)
      (h.grown.mem_of_touches hs) heq
  nodes r hr := h.grown.stands.node?_rename h.image.stands
    (h.grown.mem_of_touches hr)

/-- Both grow by the same item, each at the next place of its graph. -/
theorem Mirrors.grow {item : Item} {g₁ g₁' : Graph} {b₁ b₁' : Builder}
    (h : Mirrors f g b q g' b')
    (hadv : Advances g b q g₁ b₁ (q.grow g.size item))
    (hadv' : Advances g' b' (q.rename f) g₁' b₁'
      ((q.rename f).grow g'.size item)) :
    Mirrors (Function.update f g.size g'.size) g₁ b₁ (q.grow g.size item)
      g₁' b₁' where
  grown := hadv.grown
  image := by
    rw [Plan.rename_update_grow h.grown.size_notMem]
    exact hadv'.grown
  finalized := by rw [hadv'.finalized, hadv.finalized, h.finalized]
  expected := by rw [hadv'.expected, hadv.expected, h.expected]
  position := by rw [hadv'.position, hadv.position, h.position]

/-- Both refuse the same calls, with the same errors. -/
theorem Mirrors.refusal?_eq (h : Mirrors f g b q g' b') (c : Call) :
    b'.refusal? (q.rename f) c = b.refusal? q c := by
  cases c with
  | add token =>
      simp only [refusal?, h.finalized, h.expected, h.position]
  | build =>
      simp only [refusal?, h.finalized, h.expected, h.position,
        Plan.spine_rename, List.getLast?_map]
      cases b.expected <;> cases q.spine.getLast? <;> rfl

theorem refusal?_of_read? {token : String} {item : Item}
    (hf : b.finalized = false) (hread : Item.read? b.expected token = some item) :
    b.refusal? p (.add token) = none := by
  simp [refusal?, hf, hread]

theorem refusal?_of_complete (hf : b.finalized = false)
    (he : b.expected = .operator) : b.refusal? p .build = none := by
  simp [refusal?, hf, he]

end Builder

/-- The equation with its root moved. -/
def Equation.rename (f : Ref → Ref) (e : Equation) : Equation :=
  { e with root := e.root.map f }

/-- The exchange with what it hands out moved. -/
def Exchange.rename (f : Ref → Ref) (x : Exchange) : Exchange :=
  { x with answer := x.answer.map (·.map (·.rename f)) }

namespace Desk

variable {f : Ref → Ref} {d d' : Desk} {p q : Plan}

/-- A call changes nodes of its own plan only; a place that the plan gains
is a new one. -/
theorem Grown.call_frame (hd : d.Grown p) (c : Call) :
    ∃ p', (d.call c).2.Grown p'
      ∧ (∀ r ∈ p'.refs, r < d.graph.size → r ∈ p.refs)
      ∧ ∀ r < d.graph.size, r ∉ p.refs →
        (d.call c).2.graph.node? r = d.graph.node? r := by
  cases hd.call_cases c with
  | refused e hcall _ =>
      rw [hcall]
      exact ⟨p, hd, fun _ hr _ => hr, fun _ _ _ => rfl⟩
  | taken token item d' _ _ hcall hadv =>
      rw [hcall]
      refine ⟨_, hadv.grown, fun r hr hlt => ?_, fun r hlt hr => ?_⟩
      · rw [hadv.refs] at hr
        rcases List.mem_append.1 hr with hr | hr
        · exact hr
        · exact absurd (List.mem_singleton.1 hr) (Nat.ne_of_lt hlt)
      · exact hadv.kept r hlt fun hedge => hr (Plan.edge_subset_refs p hedge)
  | built _ _ hcall =>
      rw [hcall]
      exact ⟨p, Builder.Grown.finalize hd, fun _ hr _ => hr, fun _ _ _ => rfl⟩

/-- Desks whose builders mirror each other. -/
def Mirrors (f : Ref → Ref) (d : Desk) (q : Plan) (d' : Desk) : Prop :=
  Builder.Mirrors f d.graph d.worker.builder q d'.graph d'.worker.builder

/-- The same call on both desks is answered alike.  The renaming gains a
place where the plans do, and an answer mentions old places only. -/
theorem Mirrors.call (h : Mirrors f d q d') (c : Call) :
    ∃ f' q', Mirrors f' (d.call c).2 q' (d'.call c).2
      ∧ q.refs ⊆ q'.refs ∧ (∀ r ∈ q.refs, f' r = f r)
      ∧ ∀ f'', (∀ r ∈ q'.refs, f'' r = f' r) →
        Exchange.mk c (d'.call c).1
          = (Exchange.mk c (d.call c).1).rename f'' := by
  have hd : d.Grown q := h.grown
  have hd' : d'.Grown (q.rename f) := h.image
  have hrefusal := h.refusal?_eq c
  cases hd.call_cases c with
  | refused e hcall hwhy =>
      rw [hwhy] at hrefusal
      cases hd'.call_cases c with
      | refused e' hcall' hwhy' =>
          rw [hwhy'] at hrefusal
          rw [hcall, hcall', Option.some.inj hrefusal]
          exact ⟨f, q, h, List.Subset.refl _, fun _ _ => rfl, fun _ _ => rfl⟩
      | taken token item d₁' hf hread _ _ =>
          rw [Builder.refusal?_of_read? hf hread] at hrefusal
          cases hrefusal
      | built hf he _ =>
          rw [Builder.refusal?_of_complete hf he] at hrefusal
          cases hrefusal
  | taken token item d₁ hf hread hcall hadv =>
      rw [Builder.refusal?_of_read? hf hread] at hrefusal
      cases hd'.call_cases (.add token) with
      | refused e' _ hwhy' =>
          rw [hwhy'] at hrefusal
          cases hrefusal
      | taken _ item' d₁' _ hread' hcall' hadv' =>
          have hitem : item' = item := by
            rw [h.expected, hread] at hread'
            exact (Option.some.inj hread').symm
          subst hitem
          rw [hcall, hcall']
          refine ⟨_, _, Builder.Mirrors.grow h hadv hadv', ?_, fun r hr => ?_,
            fun _ _ => rfl⟩
          · rw [hadv.refs]
            exact List.subset_append_left _ _
          · exact Function.update_of_ne
              (ne_of_mem_of_not_mem hr h.grown.size_notMem) _ f
  | built hf he hcall =>
      rw [Builder.refusal?_of_complete hf he] at hrefusal
      cases hd'.call_cases .build with
      | refused e' _ hwhy' =>
          rw [hwhy'] at hrefusal
          cases hrefusal
      | built _ _ hcall' =>
          rw [hcall, hcall']
          refine ⟨f, q, ⟨hd.finalize, hd'.finalize, rfl, h.expected,
            h.position⟩, List.Subset.refl _, fun _ _ => rfl, fun f'' hf'' => ?_⟩
          have hroot : (q.rename f).top = q.top.map f'' := by
            rw [Plan.top_rename]
            refine Option.map_congr fun r hr => ?_
            exact (hf'' r (Plan.mem_refs_of_top hr)).symm
          rw [hroot]
          rfl

theorem transcript_append (calls later : List Call) :
    d.transcript (calls ++ later)
      = d.transcript calls ++ (d.after calls).transcript later := by
  induction calls generalizing d with
  | nil => rfl
  | cons c calls ih => exact congrArg (_ :: ·) ih

end Desk

-- ================================================================== deeds

/-- What happens in a workshop: a worker is taken on, or one is called. -/
inductive Deed where
  | hire
  | call (id : Nat) (c : Call)

namespace Workshop

/-- One deed, and what is said.  Nobody answers for a worker that is not
there. -/
def deed (w : Workshop) : Deed → List (Nat × Exchange) × Workshop
  | .hire => ([], w.hire)
  | .call id c =>
      match w.workers[id]? with
      | none => ([], w)
      | some worker =>
          let (answer, w') := w.employ id worker c.work
          ([(id, ⟨c, answer⟩)], w')

/-- The workshop after some deeds. -/
def after (w : Workshop) (deeds : List Deed) : Workshop :=
  deeds.foldl (fun w deed => (w.deed deed).2) w

/-- Everything that is said, and by whom. -/
def record (w : Workshop) : List Deed → List (Nat × Exchange)
  | [] => []
  | deed :: deeds => (w.deed deed).1 ++ (w.deed deed).2.record deeds

/-- The calls on one worker from when it is there, where `n` workers are
there to begin with. -/
def callsOn (id : Nat) : Nat → List Deed → List Call
  | _, [] => []
  | n, .hire :: deeds => callsOn id (n + 1) deeds
  | n, .call i c :: deeds =>
      if i = id ∧ id < n then c :: callsOn id n deeds else callsOn id n deeds

/-- What one worker has heard and said. -/
def heardBy (id : Nat) (entries : List (Nat × Exchange)) : List Exchange :=
  entries.filterMap fun entry => if entry.1 = id then some entry.2 else none

/-- The builder of a worker; one that has not been taken on has taken
nothing. -/
def builder (w : Workshop) (id : Nat) : Builder :=
  w.workers[id]?.elim {} (·.builder)

/-- Every worker has grown a plan, and no two have a place in common. -/
structure Apart (w : Workshop) (plans : Nat → Plan) : Prop where
  grown : ∀ id, (w.builder id).Grown w.graph (plans id)
  disjoint : ∀ i j, i ≠ j → ∀ r ∈ (plans i).refs, r ∉ (plans j).refs

/-- Everything that a deed can come to. -/
inductive DeedCases (w : Workshop) (deed : Deed) : Prop
  | idle (hsaid : (w.deed deed).1 = [])
      (hgraph : (w.deed deed).2.graph = w.graph)
      (hbuilder : ∀ id, (w.deed deed).2.builder id = w.builder id)
  | work (id : Nat) (d : Desk) (c : Call) (hd : d.graph = w.graph)
      (hb : d.worker.builder = w.builder id)
      (hsaid : (w.deed deed).1 = [(id, ⟨c, (d.call c).1⟩)])
      (hgraph : (w.deed deed).2.graph = (d.call c).2.graph)
      (hself : (w.deed deed).2.builder id = (d.call c).2.worker.builder)
      (hother : ∀ j, j ≠ id → (w.deed deed).2.builder j = w.builder j)

variable {w : Workshop} {plans : Nat → Plan} {f : Ref → Ref} {d : Desk}
  {q : Plan} {id : Nat}

theorem builder_hire (w : Workshop) (id : Nat) :
    w.hire.builder id = w.builder id := by
  unfold builder hire
  simp only [Array.getElem?_push]
  split
  · next h =>
      rw [h, Array.getElem?_eq_none (Nat.le_refl _)]
      rfl
  · rfl

theorem deed_cases (w : Workshop) (deed : Deed) : DeedCases w deed := by
  cases deed with
  | hire => exact .idle rfl rfl (builder_hire w)
  | call id c =>
      cases hworker : w.workers[id]? with
      | none =>
          have hdeed : w.deed (.call id c) = ([], w) := by
            simp only [Workshop.deed, hworker]
          refine .idle ?_ ?_ ?_ <;> rw [hdeed]
          exact fun _ => rfl
      | some worker =>
          have hid : id < w.workers.size :=
            (Array.getElem?_eq_some_iff.1 hworker).1
          have hdeed : w.deed (.call id c)
              = ([(id, ⟨c, (Desk.call ⟨w.graph, w.log, worker⟩ c).1⟩)],
                (w.employ id worker c.work).2) := by
            simp only [Workshop.deed, hworker]
            rfl
          refine .work id ⟨w.graph, w.log, worker⟩ c rfl ?_ ?_ ?_ ?_ ?_
          · simp only [builder, hworker, Option.elim_some]
          · rw [hdeed]
          · rw [hdeed]
            rfl
          · rw [hdeed]
            simp only [builder, employ, Array.getElem?_setIfInBounds_self,
              hid, if_true, Option.elim_some]
            rfl
          · intro j hj
            rw [hdeed]
            simp only [builder, employ, Array.getElem?_setIfInBounds_ne
              (Ne.symm hj)]

-- ============================================================== every deed

/-- A call leaves what the other workers have grown, and gains none of
it. -/
theorem Apart.call (h : w.Apart plans) (hd : d.graph = w.graph)
    (hb : d.worker.builder = w.builder id) (c : Call) :
    ∃ p', (d.call c).2.Grown p'
      ∧ ∀ j, j ≠ id → ∀ r ∈ (plans j).refs,
        r ∉ p'.refs ∧ (d.call c).2.graph.node? r = w.graph.node? r := by
  have hdesk : d.Grown (plans id) := by
    unfold Desk.Grown
    rw [hd, hb]
    exact h.grown id
  obtain ⟨p', hgrown, hrefs, hkept⟩ := hdesk.call_frame c
  rw [hd] at hrefs hkept
  refine ⟨p', hgrown, fun j hj r hr => ?_⟩
  -- a place of another plan is an old one, and not in this plan
  have hlt : r < w.graph.size := (h.grown j).stands.lt_size hr
  have hnot : r ∉ (plans id).refs := h.disjoint j id hj r hr
  exact ⟨fun hmem => hnot (hrefs r hmem hlt), hkept r hlt hnot⟩

/-- The workers stay apart. -/
theorem Apart.deed (h : w.Apart plans) (deed : Deed) :
    ∃ plans', (w.deed deed).2.Apart plans' := by
  cases w.deed_cases deed with
  | idle _ hgraph hbuilder =>
      refine ⟨plans, fun id => ?_, h.disjoint⟩
      rw [hbuilder, hgraph]
      exact h.grown id
  | work id d c hd hb _ hgraph hself hother =>
      obtain ⟨p', hgrown, hleft⟩ := h.call hd hb c
      refine ⟨Function.update plans id p', fun j => ?_, fun i j hij r hr => ?_⟩
      · rw [hgraph]
        by_cases hj : j = id
        · subst hj
          rw [hself, Function.update_self]
          exact hgrown
        · rw [hother j hj, Function.update_of_ne hj]
          exact (h.grown j).congr fun r hr => (hleft j hj r hr).2
      · by_cases hi : i = id
        · subst hi
          rw [Function.update_self] at hr
          rw [Function.update_of_ne (Ne.symm hij)]
          exact fun hmem => (hleft j (Ne.symm hij) r hmem).1 hr
        · rw [Function.update_of_ne hi] at hr
          by_cases hj : j = id
          · subst hj
            rw [Function.update_self]
            exact (hleft i hi r hr).1
          · rw [Function.update_of_ne hj]
            exact h.disjoint i j hij r hr

/-- A worker has been answered as it is answered alone: `heard` are the
answers, `d` is where the worker was alone before them, and `w'` is the
workshop after them. -/
structure Follows (f : Ref → Ref) (d : Desk) (q : Plan)
    (heard : List Exchange) (w' : Workshop) (id : Nat) (f' : Ref → Ref)
    (q' : Plan) : Prop where
  mirrors : let alone := d.after (heard.map (·.call))
    Builder.Mirrors f' alone.graph alone.worker.builder q' w'.graph
      (w'.builder id)
  refs : q.refs ⊆ q'.refs
  places : ∀ r ∈ q.refs, f' r = f r
  answers : ∀ f'', (∀ r ∈ q'.refs, f'' r = f' r) →
    heard = (d.transcript (heard.map (·.call))).map (·.rename f'')

/-- A worker that has heard nothing is where it was. -/
theorem follows_nil
    (hm : Builder.Mirrors f d.graph d.worker.builder q w.graph
      (w.builder id)) : Follows f d q [] w id f q :=
  ⟨hm, List.Subset.refl _, fun _ _ => rfl, fun _ _ => rfl⟩

theorem Follows.trans {heard heard' : List Exchange} {w' w'' : Workshop}
    {f' f'' : Ref → Ref} {q' q'' : Plan} (h : Follows f d q heard w' id f' q')
    (h' : Follows f' (d.after (heard.map (·.call))) q' heard' w'' id f'' q'') :
    Follows f d q (heard ++ heard') w'' id f'' q'' where
  mirrors := by
    rw [List.map_append, Desk.after, List.foldl_append]
    exact h'.mirrors
  refs := List.Subset.trans h.refs h'.refs
  places r hr := (h'.places r (h.refs hr)).trans (h.places r hr)
  answers φ hφ := by
    -- the later renaming moves the earlier places as the earlier one did
    have hearlier : ∀ r ∈ q'.refs, φ r = f' r := fun r hr =>
      (hφ r (h'.refs hr)).trans (h'.places r hr)
    rw [List.map_append, Desk.transcript_append, List.map_append,
      ← h.answers φ hearlier, ← h'.answers φ hφ]

/-- Whatever is done, a worker is answered as it is answered alone. -/
theorem Apart.follows_deed (h : w.Apart plans)
    (hm : Builder.Mirrors f d.graph d.worker.builder q w.graph
      (w.builder id)) (deed : Deed) :
    ∃ f' q', Follows f d q (heardBy id (w.deed deed).1) (w.deed deed).2 id
      f' q' := by
  cases w.deed_cases deed with
  | idle hsaid hgraph hbuilder =>
      rw [hsaid]
      refine ⟨f, q, follows_nil ?_⟩
      rw [hgraph, hbuilder]
      exact hm
  | work j e c he hb hsaid hgraph hself hother =>
      rw [hsaid]
      by_cases hj : j = id
      · -- its own call, which is made on both
        subst hj
        have hdesks : Desk.Mirrors f d q e := by
          unfold Desk.Mirrors
          rw [he, hb]
          exact hm
        obtain ⟨f', q', hcall, hrefs, hplaces, hanswer⟩ := hdesks.call c
        have hheard : heardBy j [(j, ⟨c, (e.call c).1⟩)]
            = [⟨c, (e.call c).1⟩] := by simp [heardBy]
        rw [hheard]
        refine ⟨f', q', ?_, hrefs, hplaces, fun φ hφ => ?_⟩
        · rw [hgraph, hself]
          exact hcall
        · exact congrArg (fun x => [x]) (hanswer φ hφ)
      · -- somebody else's call, which leaves this worker's plan alone
        have hheard : heardBy id [(j, ⟨c, (e.call c).1⟩)] = [] := by
          simp [heardBy, hj]
        have hplan : q.rename f = plans id := hm.image.unique (h.grown id)
        obtain ⟨_, -, hleft⟩ := h.call he hb c
        rw [hheard]
        refine ⟨f, q, follows_nil ?_⟩
        rw [hgraph, hother id (Ne.symm hj)]
        refine { hm with image := hm.image.congr fun r hr => ?_ }
        rw [hplan] at hr
        exact (hleft id (Ne.symm hj) r hr).2

-- ============================================================== every run

theorem Apart.follows_after (h : w.Apart plans)
    (hm : Builder.Mirrors f d.graph d.worker.builder q w.graph
      (w.builder id)) (deeds : List Deed) :
    ∃ f' q', Follows f d q (heardBy id (w.record deeds)) (w.after deeds) id
      f' q' := by
  induction deeds generalizing w plans f d q with
  | nil => exact ⟨f, q, follows_nil hm⟩
  | cons deed deeds ih =>
      obtain ⟨plans', h'⟩ := h.deed deed
      obtain ⟨f', q', hdeed⟩ := h.follows_deed hm deed
      obtain ⟨f'', q'', hdeeds⟩ := ih h' hdeed.mirrors
      refine ⟨f'', q'', ?_⟩
      rw [record, heardBy, List.filterMap_append]
      exact hdeed.trans hdeeds

/-- A worker that is there hears every call on it. -/
theorem map_call_heardBy (w : Workshop) (deeds : List Deed) :
    (heardBy id (w.record deeds)).map (·.call)
      = callsOn id w.workers.size deeds := by
  induction deeds generalizing w with
  | nil => rfl
  | cons deed deeds ih =>
      rw [record, heardBy, List.filterMap_append, List.map_append]
      cases deed with
      | hire =>
          have hsize : w.hire.workers.size = w.workers.size + 1 :=
            Array.size_push _
          rw [callsOn, ← hsize, ← ih]
          rfl
      | call i c =>
          cases hworker : w.workers[i]? with
          | none =>
              have hout : ¬ i < w.workers.size := fun hi =>
                absurd hworker (by simp [hi])
              have hskip : ¬ (i = id ∧ id < w.workers.size) := by
                rintro ⟨rfl, hi⟩
                exact hout hi
              rw [callsOn, if_neg hskip, ← ih]
              simp only [Workshop.deed, hworker]
              rfl
          | some worker =>
              have hin : i < w.workers.size :=
                (Array.getElem?_eq_some_iff.1 hworker).1
              have hsize : (w.employ i worker c.work).2.workers.size
                  = w.workers.size := Array.size_setIfInBounds
              have hrest := ih (w.employ i worker c.work).2
              rw [hsize] at hrest
              simp only [Workshop.deed, hworker]
              by_cases hi : i = id
              · subst hi
                rw [callsOn, if_pos ⟨rfl, hin⟩, ← hrest]
                simp [heardBy]
              · rw [callsOn, if_neg fun h => hi h.1, ← hrest]
                simp [heardBy, hi]

theorem Apart.after (h : w.Apart plans) (deeds : List Deed) :
    ∃ plans', (w.after deeds).Apart plans' := by
  induction deeds generalizing w plans with
  | nil => exact ⟨plans, h⟩
  | cons deed deeds ih =>
      obtain ⟨plans', h'⟩ := h.deed deed
      exact ih h'

theorem apart_new (g : Graph) (log : Log) :
    Apart { graph := g, log := log } fun _ => .vacant :=
  ⟨fun _ => Builder.grown_new g, fun _ _ _ _ hr => nomatch hr⟩

/-- Whoever is taken on and called in a workshop, and in whatever order:
every worker is answered what it is answered when the same calls are made
on it alone, in whatever graph and with whatever log, and ends as a copy
of what it is then, nodes included; and no two workers touch a common
node. -/
theorem workers_do_not_interfere (g g₀ : Graph) (log log₀ : Log)
    (logger₀ : LoggerId) (deeds : List Deed) :
    let start : Workshop := { graph := g, log := log }
    let w := start.after deeds
    (∀ id, let calls := callsOn id 0 deeds
      let alone := Desk.new g₀ log₀ logger₀
      let d := alone.after calls
      ∃ f : Ref → Ref, heardBy id (start.record deeds)
          = (alone.transcript calls).map (·.rename f)
        ∧ Builder.Copies f d.graph d.worker.builder w.graph (w.builder id))
      ∧ ∀ i j r, w.graph.Touches (w.builder i).held r →
        w.graph.Touches (w.builder j).held r → i = j := by
  intro start w
  have hstart : start.Apart fun _ => .vacant := apart_new g log
  refine ⟨?_, fun i j r hi hj => ?_⟩
  · intro id calls alone d
    -- nobody has taken anything yet, and any renaming will do
    have hmirrors : Builder.Mirrors (fun r => r) alone.graph
        alone.worker.builder .vacant start.graph (start.builder id) :=
      ⟨Builder.grown_new g₀, Builder.grown_new g, rfl, rfl, rfl⟩
    obtain ⟨f, q, hfollows⟩ := hstart.follows_after hmirrors deeds
    have hanswers := hfollows.answers f fun _ _ => rfl
    have hcopies := hfollows.mirrors.copies
    have hcalls : (heardBy id (start.record deeds)).map (·.call) = calls :=
      map_call_heardBy start deeds
    rw [hcalls] at hanswers hcopies
    exact ⟨f, hanswers, hcopies⟩
  · obtain ⟨plans, hw⟩ := hstart.after deeds
    by_contra hij
    exact hw.disjoint i j hij r ((hw.grown i).mem_of_touches hi)
      ((hw.grown j).mem_of_touches hj)

/-- Two builders by turns, each of which is refused a call: the first hears
what it would have heard alone, and holds a node that the second cannot
touch. -/
theorem workers_do_not_interfere_two :
    let start : Workshop := { graph := .empty, log := {} }
    let deeds : List Deed := [.hire, .hire, .call 0 (.add "1"),
      .call 1 (.add "2"), .call 0 (.add "+"), .call 1 .build,
      .call 0 (.add "x"), .call 0 (.add "3")]
    let w := start.after deeds
    let alone := Desk.new .empty {} 0
    (∃ f : Ref → Ref, heardBy 0 (start.record deeds)
        = (alone.transcript
          [.add "1", .add "+", .add "x", .add "3"]).map (·.rename f))
      ∧ w.graph.Touches (w.builder 0).held 2
      ∧ ¬ w.graph.Touches (w.builder 1).held 2 := by
  intro start deeds w alone
  have hheld : 2 ∈ (w.builder 0).held := by decide +kernel
  obtain ⟨hsame, hapart⟩ := workers_do_not_interfere .empty .empty {} {} 0 deeds
  obtain ⟨f, hheard, -⟩ := hsame 0
  change ∀ i j r, w.graph.Touches (w.builder i).held r →
    w.graph.Touches (w.builder j).held r → i = j at hapart
  clear_value w
  refine ⟨⟨f, hheard⟩, .held hheld, fun htouch => ?_⟩
  exact absurd (hapart 0 1 2 (.held hheld) htouch) (by decide)

end Workshop

end Formula
