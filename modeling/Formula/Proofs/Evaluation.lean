/-
The two evaluations of a graph that need not be a tree, by stacks and by
recursion.  Nodes may be shared and operands and operators may be missing;
only cycles and foreign nodes are left out.

What is wrong below a place can be listed in the order in which a reader
meets it who takes the left operand, then the right one, then the
operator (`Defects`), and the list is empty just where every operator
node below has an operator and both operands (`Defects.eq_nil_iff`).
Both evaluations come to a value where it is empty, and otherwise both
stop for what is first in it (`Defects.comesTo`), as long as the calls that
the recursion needs until then may be nested in each other
(`Within.exists_calls_evaluate`).  The stacks have no such limit
(`evaluations_differ_chain`).

A defect below a shared node is listed once for every way to the node.
-/
import Formula.Proofs.Builder.Chain
import Formula.Proofs.Graph.Loop
import Formula.Proofs.Graph.Nesting
import Formula.Proofs.Graph.Unfolding

namespace Formula.Graph

-- ======================================================= the vocabulary

/-- Something that is wrong below a place: what it is, and the way to the
operand or the operator node that it is about. -/
structure Finding where
  way : List Side
  defect : Defect

namespace Finding

/-- The same as it is found from one node higher. -/
def under (side : Side) (f : Finding) : Finding :=
  { f with way := side :: f.way }

/-- At the end of the way there is nothing, or a node without operator,
as the finding says. -/
def Holds (g : Graph) (r : Option Ref) (f : Finding) : Prop :=
  match f.defect with
  | .missing => g.holder (r.bind (g.follow · f.way)) = .nothing
  | .bare => ∃ left right,
      (r.bind (g.follow · f.way)).bind g.content?
        = some (.operator none left right)
  | _ => False

end Finding

/-- What is wrong with the operator of a node itself. -/
def operatorFindings : Option Operator → List Finding
  | none => [⟨[], .bare⟩]
  | some _ => []

/-- All that is wrong below a place: in the left operand, in the right
operand, with the operator. -/
inductive Defects (g : Graph) : Option Ref → List Finding → Prop
  | missing {r : Option Ref} (h : r.bind g.content? = none) :
      Defects g r [⟨[], .missing⟩]
  | value {r : Option Ref} {x : Float}
      (h : r.bind g.content? = some (.value x)) : Defects g r []
  | operator {r left right : Option Ref} {op : Option Operator}
      {fs fs' : List Finding}
      (h : r.bind g.content? = some (.operator op left right))
      (hleft : Defects g left fs) (hright : Defects g right fs') :
      Defects g r (fs.map (.under .left) ++ fs'.map (.under .right)
        ++ operatorFindings op)

/-- Every operator node below a node has an operator and both operands. -/
def Furnished (g : Graph) (r : Ref) : Prop :=
  ∀ s, g.Reaches r s → ∀ op left right,
    g.content? s = some (.operator op left right) →
      op ≠ none ∧ g.holder left ≠ .nothing ∧ g.holder right ≠ .nothing

/-- A value where nothing is wrong, and else the first thing that is. -/
def ComesTo {α : Type} (fs : List Finding) (result : Except Defect α) : Prop :=
  match fs with
  | [] => ∃ x, result = .ok x
  | first :: _ => result = .error first.defect

variable {g : Graph} {r : Option Ref} {fs : List Finding} {n : Nat}

-- ========================================================= the findings

theorem holder_eq_nothing_iff : g.holder r = .nothing ↔ r.bind g.content? = none := by
  unfold holder
  cases r.bind g.content? with
  | none => exact ⟨fun _ => rfl, fun _ => rfl⟩
  | some c => cases c <;> exact ⟨nofun, nofun⟩

theorem Defects.unique {fs' : List Finding} (h : g.Defects r fs)
    (h' : g.Defects r fs') : fs = fs' := by
  induction h generalizing fs' with
  | missing h =>
      cases h' with
      | missing => rfl
      | value h' | operator h' => cases h.symm.trans h'
  | value h =>
      cases h' with
      | value => rfl
      | missing h' | operator h' => cases h.symm.trans h'
  | operator h _ _ ihl ihr =>
      cases h' with
      | missing h' | value h' => cases h.symm.trans h'
      | operator h' hleft' hright' =>
          cases h.symm.trans h'
          rw [ihl hleft', ihr hright']

/-- What is found below an operand is found below the node. -/
theorem Finding.Holds.under {top : Ref} {side : Side} {f : Finding}
    (h : f.Holds g (g.operand? top side)) :
    (f.under side).Holds g (some top) := by
  have hway : (some top).bind (g.follow · (side :: f.way))
      = (g.operand? top side).bind (g.follow · f.way) := by
    rw [Option.bind_some, follow]
    cases g.operand? top side with
    | none => rfl
    | some c => rfl
  unfold Holds at h ⊢
  unfold Finding.under
  dsimp only
  rwa [hway]

theorem Finding.Holds.missing_or_bare {f : Finding} (h : f.Holds g r) :
    f.defect = .missing ∨ f.defect = .bare := by
  unfold Holds at h
  cases hf : f.defect with
  | missing => exact .inl rfl
  | bare => exact .inr rfl
  | foreign _ | endless | underflow | tooDeep =>
      rw [hf] at h
      exact h.elim

theorem Defects.holds (h : g.Defects r fs) : ∀ f ∈ fs, f.Holds g r := by
  induction h with
  | missing h =>
      intro f hf
      rw [List.mem_singleton.1 hf]
      show g.holder (Option.bind _ fun top => some top) = .nothing
      rw [Option.bind_fun_some, holder_eq_nothing_iff]
      exact h
  | value _ => exact nofun
  | @operator _ left right op _ _ h _ _ ihl ihr =>
      obtain ⟨top, rfl, htop⟩ := Option.bind_eq_some_iff.1 h
      obtain ⟨hleft, hright⟩ := operand?_of_content? htop
      rw [List.forall_mem_append, List.forall_mem_append, List.forall_mem_map,
        List.forall_mem_map]
      refine ⟨⟨fun f hf => ?_, fun f hf => ?_⟩, ?_⟩
      · exact .under (hleft.symm ▸ ihl f hf)
      · exact .under (hright.symm ▸ ihr f hf)
      · cases op with
        | none =>
            intro f hf
            rw [List.mem_singleton.1 hf]
            exact ⟨left, right, htop⟩
        | some o => exact nofun

/-- Where paths are bounded the findings can be listed. -/
theorem exists_defects (hkinds : ∀ s kind, g.content? s ≠ some (.foreign kind))
    (h : g.Within n r) : ∃ fs, g.Defects r fs := by
  induction n generalizing r with
  | zero => exact ⟨_, .missing h.content?_zero⟩
  | succ n ih =>
      cases hr : r.bind g.content? with
      | none => exact ⟨_, .missing hr⟩
      | some c =>
          cases c with
          | value x => exact ⟨_, .value hr⟩
          | foreign kind =>
              obtain ⟨s, -, hs⟩ := Option.bind_eq_some_iff.1 hr
              exact absurd hs (hkinds s kind)
          | operator op left right =>
              obtain ⟨hleft, hright⟩ := h.operands hr
              obtain ⟨fs, hfs⟩ := ih hleft
              obtain ⟨fs', hfs'⟩ := ih hright
              exact ⟨_, .operator hr hfs hfs'⟩

-- ====================================================== the evaluations

variable {α : Type} {leaf : Float → α} {join : Operator → α → α → α}

/-- A fold in the order of the definition stops for the first finding: the
left operand is folded before the right one, and the operator is wanted
last. -/
theorem Defects.comesTo (h : g.Defects r fs) (hn : g.Within n r) :
    ComesTo fs (g.foldDeep leaf join n r) := by
  induction h generalizing n with
  | missing h =>
      rw [foldDeep, h]
      rfl
  | value h =>
      rw [foldDeep, h]
      exact ⟨_, rfl⟩
  | @operator r left right op fs fs' h _ _ ihl ihr =>
      obtain _ | n := n
      · cases hn.content?_zero.symm.trans h
      obtain ⟨hnl, hnr⟩ := hn.operands h
      have hleft := ihl hnl
      have hright := ihr hnr
      rw [foldDeep, h]
      dsimp only
      cases fs with
      | cons f fs =>
          have hstop : g.foldDeep leaf join n left = .error f.defect := hleft
          rw [hstop]
          rfl
      | nil =>
          obtain ⟨x, hx⟩ := hleft
          rw [hx]
          cases fs' with
          | cons f fs' =>
              have hstop : g.foldDeep leaf join n right = .error f.defect :=
                hright
              rw [hstop]
              rfl
          | nil =>
              obtain ⟨y, hy⟩ := hright
              rw [hy]
              cases op with
              | none => rfl
              | some o => exact ⟨join o x y, rfl⟩

theorem Defects.comesTo_evaluate (h : g.Defects r fs)
    (hn : g.Within g.size r) : ComesTo fs (g.evaluate r) := by
  unfold evaluate
  rw [fold_eq_foldDeep]
  exact h.comesTo hn

theorem evaluateReporting_of_error {d : Defect} (log : Log)
    (h : g.evaluate r = .error d) :
    (g.evaluateReporting log r).2
      = .error (.fault (d.fault "right" "apply")) := by
  unfold evaluateReporting
  rw [h]

/-- The loop ends with the result of the recursion and nothing else. -/
theorem drain_start :
    g.drain leaf join [.visit g.size r] []
      = (g.foldDeep leaf join g.size r).map fun x => [x] := by
  rw [drain_visit]
  cases g.foldDeep leaf join g.size r with
  | error d => rfl
  | ok x =>
      show g.drain leaf join [] [x] = .ok [x]
      rw [drain]

theorem length_of_drain {results : List α}
    (h : g.drain leaf join [.visit g.size r] [] = .ok results) :
    results.length = 1 := by
  rw [drain_start] at h
  cases hx : g.foldDeep leaf join g.size r with
  | error d =>
      rw [hx] at h
      cases h
  | ok x =>
      rw [hx] at h
      cases h
      rfl

/-- No finding is that results have run short. -/
theorem Defects.drain_ne_underflow (h : g.Defects r fs)
    (hn : g.Within g.size r) :
    g.drain leaf join [.visit g.size r] [] ≠ .error .underflow := by
  have hcomes : ComesTo fs (g.foldDeep leaf join g.size r) := h.comesTo hn
  rw [drain_start]
  cases fs with
  | nil =>
      obtain ⟨x, hx⟩ := hcomes
      rw [hx]
      exact nofun
  | cons first later =>
      have hstop : g.foldDeep leaf join g.size r = .error first.defect := hcomes
      rw [hstop]
      intro hunder
      have hdefect : first.defect = .underflow := Except.error.inj hunder
      rcases (h.holds first List.mem_cons_self).missing_or_bare with hf | hf
      · cases hdefect.symm.trans hf
      · cases hdefect.symm.trans hf

-- ======================================================= nothing is wrong

/-- Where nothing is wrong below an operator node, nothing is wrong with
the node, and nothing below its operands. -/
theorem Defects.operands_of_nil {op : Option Operator}
    {left right : Option Ref} (h : g.Defects r [])
    (hr : r.bind g.content? = some (.operator op left right)) :
    op ≠ none ∧ g.Defects left [] ∧ g.Defects right [] := by
  obtain ⟨fs, hfs, h⟩ : ∃ fs, [] = fs ∧ g.Defects r fs := ⟨[], rfl, h⟩
  cases h with
  | missing h => cases hfs
  | value h => cases h.symm.trans hr
  | @operator _ left' right' op' fs fs' h hleft hright =>
      cases h.symm.trans hr
      obtain ⟨hmaps, hop⟩ := List.append_eq_nil_iff.1 hfs.symm
      obtain ⟨hl, hr⟩ := List.append_eq_nil_iff.1 hmaps
      rw [List.map_eq_nil_iff.1 hl] at hleft
      rw [List.map_eq_nil_iff.1 hr] at hright
      refine ⟨?_, hleft, hright⟩
      rintro rfl
      cases hop

theorem Defects.holder_of_nil (h : g.Defects r []) : g.holder r ≠ .nothing := by
  rw [Ne, holder_eq_nothing_iff]
  intro hnone
  cases h.unique (.missing hnone)

/-- What is below a place where nothing is wrong is such a place. -/
theorem Defects.nil_of_follow {top s : Ref} {path : List Side}
    (h : g.Defects (some top) []) (hpath : g.follow top path = some s) :
    g.Defects (some s) [] := by
  induction path generalizing top with
  | nil =>
      injection hpath with hpath
      rwa [← hpath]
  | cons side path ih =>
      obtain ⟨c, hc, hrest⟩ := operand?_of_follow hpath
      obtain ⟨content, hcontent, hoperand⟩ := Option.bind_eq_some_iff.1 hc
      cases content with
      | value x => cases hoperand
      | foreign kind => cases hoperand
      | operator op left right =>
          obtain ⟨-, hleft, hright⟩ := h.operands_of_nil hcontent
          cases side with
          | left =>
              have heq : left = some c := hoperand
              exact ih (heq ▸ hleft) hrest
          | right =>
              have heq : right = some c := hoperand
              exact ih (heq ▸ hright) hrest

theorem Furnished.operand {top c : Ref} {side : Side} (h : g.Furnished top)
    (hc : g.operand? top side = some c) : g.Furnished c := by
  intro s hs
  obtain ⟨path, hpath⟩ := hs
  exact h s ⟨side :: path, (follow_cons path hc).trans hpath⟩

theorem Defects.nil_of_furnished (h : g.Defects r fs)
    (hthere : g.holder r ≠ .nothing)
    (hbelow : ∀ top, r = some top → g.Furnished top) : fs = [] := by
  induction h with
  | missing h => exact absurd (holder_eq_nothing_iff.2 h) hthere
  | value h => rfl
  | @operator r left right op fs fs' h _ _ ihl ihr =>
      obtain ⟨top, rfl, htop⟩ := Option.bind_eq_some_iff.1 h
      have hfurnished := hbelow top rfl
      obtain ⟨hop, hleft, hright⟩ :=
        hfurnished top ⟨[], rfl⟩ op left right htop
      obtain ⟨hleft?, hright?⟩ := operand?_of_content? htop
      rw [ihl hleft fun c hc => hfurnished.operand (hleft?.trans hc),
        ihr hright fun c hc => hfurnished.operand (hright?.trans hc)]
      cases op with
      | none => exact absurd rfl hop
      | some o => rfl

/-- Nothing is wrong below a node just where everything below it is
furnished. -/
theorem Defects.eq_nil_iff {top : Ref} (h : g.Defects (some top) fs)
    (htop : top < g.size) : fs = [] ↔ g.Furnished top := by
  constructor
  · rintro rfl s ⟨path, hpath⟩ op left right hs
    obtain ⟨hop, hleft, hright⟩ := (h.nil_of_follow hpath).operands_of_nil hs
    exact ⟨hop, hleft.holder_of_nil, hright.holder_of_nil⟩
  · intro hfurnished
    refine h.nil_of_furnished ?_ ?_
    · have hnode : g.node? top = some (g.nodes[top]) :=
        Array.getElem?_eq_getElem htop
      rw [Ne, holder_eq_nothing_iff, Option.bind_some, content?_of_node? hnode]
      exact nofun
    · intro s hs
      rwa [← Option.some.inj hs]

-- ============================================================ agreement

/-- In a graph without cycles, of value and operator nodes only, the
evaluation by stacks comes to a value below any node where every operator
node has an operator and both operands.  Elsewhere it asks nothing for a
part, and what it comes upon is the first defect by left operand, right
operand and operator.  There is a number of calls, no more than one for
each node on the longest path and what is called for at its end, such that
the evaluation by recursion gives up if it may nest fewer, and else comes
to the same value or asks nothing for a part at the same defect.  The loop
never wants a result that is not there, and ends with one. -/
theorem evaluations_agree (g : Graph) (hacyclic : g.Acyclic)
    (hkinds : ∀ s kind, g.content? s ≠ some (.foreign kind)) (r : Ref)
    (hr : r < g.size) (log : Log) (c : Overhead) :
    ((∃ x, (g.evaluateReporting log (some r)).2 = .ok x) ↔ g.Furnished r)
      ∧ (∃ found, (∀ fs, g.Defects (some r) fs ↔ fs = found)
        ∧ (∀ f ∈ found, f.Holds g (some r))
        ∧ (found = [] ↔ g.Furnished r)
        ∧ (∀ first later, found = first :: later →
          (first.defect = .missing ∨ first.defect = .bare)
            ∧ (g.evaluateReporting log (some r)).2
              = .error (.fault (first.defect.fault "right" "apply")))
        ∧ ∃ calls,
          (∀ k, g.Within k (some r) → calls ≤ k + max c.reading c.applying)
          ∧ ∀ limit,
            (limit < calls →
              g.evaluateQuietly c limit (some r) = .error (.fault .tooDeep))
            ∧ (calls ≤ limit →
              (∀ x, (g.evaluateReporting log (some r)).2 = .ok x
                ↔ g.evaluateQuietly c limit (some r) = .ok x)
              ∧ ((∃ x, g.evaluateQuietly c limit (some r) = .ok x)
                ↔ g.Furnished r)
              ∧ ∀ first later, found = first :: later →
                g.evaluateQuietly c limit (some r)
                  = .error (.fault (first.defect.fault "evaluate" "apply"))))
      ∧ (∀ tasks results, Runs id Operator.apply g (some r) tasks results →
        Supplied tasks results
          ∧ g.drain id Operator.apply [.visit g.size (some r)] []
            = g.drain id Operator.apply tasks results
          ∧ (tasks = []
            ∨ (∃ next, Turn id Operator.apply g (tasks, results) next)
            ∨ ∃ d, g.drain id Operator.apply tasks results = .error d))
      ∧ (∀ results, g.drain id Operator.apply [.visit g.size (some r)] []
          = .ok results → results.length = 1)
      ∧ g.drain id Operator.apply [.visit g.size (some r)] []
        ≠ .error .underflow := by
  have hwithin := hacyclic.within (some r)
  obtain ⟨fs, hfs⟩ := exists_defects hkinds hwithin
  have hunique : ∀ fs', g.Defects (some r) fs' ↔ fs' = fs := fun fs' =>
    ⟨fun h => h.unique hfs, fun h => h ▸ hfs⟩
  have hnil := hfs.eq_nil_iff hr
  have hcomes := hfs.comesTo_evaluate hwithin
  obtain ⟨calls, hle, hquiet⟩ := hwithin.exists_calls_evaluate c
  rw [← hnil]
  refine ⟨?_, ⟨fs, hunique, hfs.holds, Iff.rfl, ?_, calls, hle,
      fun limit => ⟨fun hlt => ?_, fun henough => ?_⟩⟩,
    fun _ _ hrun => hrun.supplied, fun _ hresults => length_of_drain hresults,
    hfs.drain_ne_underflow hwithin⟩
  · cases fs with
    | nil =>
        obtain ⟨x, hx⟩ := hcomes
        exact iff_of_true ⟨x, evaluateReporting_of_ok log hx⟩ rfl
    | cons first later =>
        rw [evaluateReporting_of_error log hcomes]
        exact iff_of_false nofun (List.cons_ne_nil _ _)
  · rintro first later rfl
    exact ⟨(hfs.holds first List.mem_cons_self).missing_or_bare,
      evaluateReporting_of_error log hcomes⟩
  · rw [hquiet, if_neg (Nat.not_le.2 hlt)]
  · rw [hquiet, if_pos henough]
    cases fs with
    | nil =>
        obtain ⟨x, hx⟩ := hcomes
        rw [evaluateReporting_of_ok log hx, hx]
        exact ⟨fun _ => Iff.rfl, iff_of_true ⟨x, rfl⟩ rfl, nofun⟩
    | cons first later =>
        have hstop : g.evaluate (some r) = .error first.defect := hcomes
        rw [evaluateReporting_of_error log hcomes, hstop]
        refine ⟨fun _ => ⟨nofun, nofun⟩,
          iff_of_false nofun (List.cons_ne_nil _ _), ?_⟩
        rintro _ _ ⟨⟩
        rfl

/-- A square, whose two operands are one node, and a sum over an operator
node that has the square for its left operand and nothing else. -/
def bareSum : Graph where
  nodes := #[{ content := .value 2 },
    { content := .operator (some .mul) (some 0) (some 0) },
    { content := .operator none (some 1) none },
    { content := .operator (some .add) (some 2) none }]

theorem bareSum_acyclic : bareSum.Acyclic := by
  refine acyclic_of_lt fun r side c hc => ?_
  match r, side, hc with
  | 1, .left, hc | 1, .right, hc | 2, .left, hc | 3, .left, hc =>
      cases hc
      decide

theorem bareSum_content?_ne :
    ∀ s kind, bareSum.content? s ≠ some (.foreign kind)
  | 0, _ | 1, _ | 2, _ | 3, _ | _ + 4, _ => nofun

/-- The square has a value, the sum stops for the right operand that the
bare node lacks, and ten calls are enough to find that out. -/
theorem evaluations_agree_bareSum :
    let c : Overhead := { reading := 1, applying := 3 }
    (∃ x, bareSum.evaluateQuietly c 10 (some 1) = .ok x)
      ∧ (bareSum.evaluateReporting {} (some 3)).2
        = .error (.fault (.lacks .nothing "right"))
      ∧ bareSum.evaluateQuietly c 10 (some 3)
        = .error (.fault (.lacks .nothing "evaluate")) := by
  intro c
  have hagree := evaluations_agree bareSum bareSum_acyclic bareSum_content?_ne
  have htwo : bareSum.Defects (some 0) [] := .value rfl
  have hsquare := Defects.operator (r := some 1) rfl htwo htwo
  have hbare := Defects.operator (r := some 2) rfl hsquare (.missing rfl)
  have hsum := Defects.operator (r := some 3) rfl hbare (.missing rfl)
  have hfew : ∀ calls top, (∀ k, bareSum.Within k top →
      calls ≤ k + max c.reading c.applying) → calls ≤ 10 := by
    intro calls top hle
    exact Nat.le_trans (hle 4 (bareSum_acyclic.within top)) (by decide)
  constructor
  · obtain ⟨-, ⟨found, hfound, -, hnil, -, calls, hle, hcalls⟩, -⟩ :=
      hagree 1 (by decide) {} c
    obtain ⟨-, hvalue, -⟩ := (hcalls 10).2 (hfew calls _ hle)
    rw [hvalue, ← hnil]
    exact ((hfound _).1 hsquare).symm
  · obtain ⟨-, ⟨found, hfound, -, -, hstop, calls, hle, hcalls⟩, -⟩ :=
      hagree 3 (by decide) {} c
    obtain ⟨-, -, hquiet⟩ := (hcalls 10).2 (hfew calls _ hle)
    have hfirst := ((hfound _).1 hsum).symm
    exact ⟨(hstop _ _ hfirst).2, hquiet _ _ hfirst⟩

/-- A chain of two thousand differences has a value, and no evaluation by
recursion that may nest a thousand calls comes to it. -/
theorem evaluations_differ_chain :
    ∃ r, (Bench.chain 2000).builder.head = some r
      ∧ (Bench.chain 2000).graph.Acyclic
      ∧ (∀ s kind, (Bench.chain 2000).graph.content? s ≠ some (.foreign kind))
      ∧ r < (Bench.chain 2000).graph.size
      ∧ (∀ log, ∃ x,
        ((Bench.chain 2000).graph.evaluateReporting log (some r)).2 = .ok x)
      ∧ ∀ c, (Bench.chain 2000).graph.evaluateQuietly c 1000 (some r)
        = .error (.fault .tooDeep) := by
  obtain ⟨r, t, hhead, -, hlt, hholds, hdeep⟩ :=
    Bench.exists_chain 1000 2000 (by decide)
  obtain ⟨p, hs⟩ := Bench.exists_sound_chain 2000
  refine ⟨r, hhead, hs.acyclic, fun s kind => hs.content?_ne_foreign, hlt,
    fun log => ⟨_, hholds.evaluateReporting log⟩, fun c => ?_⟩
  rw [hholds.evaluateQuietly, if_neg (hdeep c)]

end Formula.Graph
