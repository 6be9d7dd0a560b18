/-
What reading a text writes to the log.  The builder notes how each
operator finds its place, and it finds out by searching its history and
climbing the tree.  But the notes are a matter of the operators alone, in
the order in which they stand in the text (`Splice.after`): nothing is
noted of the first; an additive operator displaces the last additive one
before it, or where there is none the one just before it; and a
multiplicative operator displaces the one just before it or, if that is
additive, extends the right branch.

# What is pending

The bridge is the spine of the plan that the builder has grown.  Its
operators are the last additive one and, below it, the last one of all if
that is multiplicative (`pending`).  An operator that is spliced in keeps
what binds less tightly and comes below it, and so do the pending
operators (`pending_concat`).  So a feed notes what the operators tell
(`Grown.feed_trace`), up to the first token that is refused.

# Levels

Everything that is written is wanted at the verbose level only.  A log
that was configured at that level shows all of it, in order, and at any
other level nothing (`parse_traced`).
-/
import Formula.Proofs.Log.Console
import Formula.Proofs.Parse
import Formula.Proofs.Plan.Item
import Formula.Proofs.Worker.Calls

namespace Formula

/-- The operators that are taken from tokens, up to the first token that
is out of turn. -/
def Expected.operators (e : Expected) : List String → List Operator
  | [] => []
  | token :: tokens =>
      match Item.read? e token with
      | none => []
      | some item => item.operator?.toList ++ e.next.operators tokens

namespace Splice

/-- How an operator finds its place after others. -/
def after (before : List Operator) (op : Operator) : Option Splice :=
  before.getLast?.map fun last =>
    if op.isAdditive then
      .displaces op ((before.filter (·.isAdditive)).getLast?.getD last)
    else if last.isAdditive then .extends op
    else .displaces op last

/-- How operators find their places, one after another. -/
def trace (before : List Operator) : List Operator → List Splice
  | [] => []
  | op :: later => (after before op).toList ++ trace (before ++ [op]) later

end Splice

-- ============================================================== pending

/-- The operators of the spine, as the operators taken tell them. -/
def pending (before : List Operator) : List Operator :=
  (before.filter (·.isAdditive)).getLast?.toList
    ++ (before.getLast?.filter (!·.isAdditive)).toList

theorem Operator.rank_of_isAdditive {op : Operator} (h : op.isAdditive = true) :
    op.rank = 0 := by
  cases op with
  | add | sub => rfl
  | mul | div => cases h

theorem Operator.rank_of_not_isAdditive {op : Operator}
    (h : op.isAdditive = false) : op.rank = 1 := by
  cases op with
  | add | sub => cases h
  | mul | div => rfl

theorem isAdditive_of_mem_getLast? {before : List Operator} {op : Operator}
    (h : op ∈ (before.filter (·.isAdditive)).getLast?.toList) :
    op.isAdditive = true := by
  have hmem := List.mem_of_getLast? (Option.mem_toList.1 h)
  simpa using (List.mem_filter.1 hmem).2

theorem not_isAdditive_of_mem_filter {before : List Operator} {op : Operator}
    (h : op ∈ (before.getLast?.filter (!·.isAdditive)).toList) :
    op.isAdditive = false := by
  have hlast := (Option.filter_eq_some_iff.1 (Option.mem_toList.1 h)).2
  simpa using hlast

/-- What is pending once one more operator is taken: what binds less
tightly than it, and the operator itself. -/
theorem pending_concat (before : List Operator) (op : Operator) :
    pending (before ++ [op])
      = (pending before).takeWhile (·.rank < op.rank) ++ [op] := by
  cases hop : op.isAdditive with
  | true =>
      -- nothing binds less tightly
      have hkept : (pending before).takeWhile (·.rank < op.rank) = [] := by
        rw [Operator.rank_of_isAdditive hop]
        cases pending before with
        | nil => rfl
        | cons o later => exact List.takeWhile_cons_of_neg (by simp)
      rw [hkept]
      simp [pending, hop]
  | false =>
      -- the last additive operator stays, and nothing that was below it
      have hkept : (pending before).takeWhile (·.rank < op.rank)
          = (before.filter (·.isAdditive)).getLast?.toList := by
        rw [Operator.rank_of_not_isAdditive hop, pending,
          List.takeWhile_append_of_pos fun o ho => ?_]
        · cases hlast : (before.getLast?.filter (!·.isAdditive)).toList with
          | nil => simp
          | cons o later =>
              have ho : o.rank = 1 := Operator.rank_of_not_isAdditive
                (not_isAdditive_of_mem_filter (hlast ▸ List.mem_cons_self ..))
              simp [ho]
        · have := Operator.rank_of_isAdditive (isAdditive_of_mem_getLast? ho)
          simp [this]
      rw [hkept]
      simp [pending, hop]

theorem pending_eq_nil_iff {before : List Operator} :
    pending before = [] ↔ before = [] := by
  refine ⟨fun h => ?_, fun h => by rw [h]; rfl⟩
  rcases List.eq_nil_or_concat before with hnil | ⟨earlier, op, rfl⟩
  · exact hnil
  · rw [List.concat_eq_append, pending_concat] at h
    simp at h

/-- The topmost pending operator that binds at least as tightly is what is
displaced. -/
theorem Splice.after_eq {before : List Operator} (h : before ≠ [])
    (op : Operator) :
    after before op
      = match (pending before).find? (op.rank ≤ ·.rank) with
        | some displaced => some (.displaces op displaced)
        | none => some (.extends op) := by
  obtain ⟨last, hlast⟩ : ∃ last, before.getLast? = some last :=
    Option.ne_none_iff_exists'.1 (by simpa using h)
  unfold after pending
  rw [hlast, Option.map_some]
  cases hop : op.isAdditive with
  | true =>
      rw [Operator.rank_of_isAdditive hop]
      cases hadd : (before.filter (·.isAdditive)).getLast? with
      | some o => simp
      | none =>
          have hmul : last.isAdditive = false := by
            have hnil := List.getLast?_eq_none_iff.1 hadd
            simpa using List.filter_eq_nil_iff.1 hnil last
              (List.mem_of_getLast? hlast)
          simp [hmul, Option.filter_some]
  | false =>
      rw [Operator.rank_of_not_isAdditive hop]
      have hadd : (before.filter (·.isAdditive)).getLast?.toList.find?
          (1 ≤ ·.rank) = none := by
        refine List.find?_eq_none.2 fun o ho => ?_
        simp [Operator.rank_of_isAdditive (isAdditive_of_mem_getLast? ho)]
      rw [List.find?_append, hadd, Option.none_or]
      cases hmul : last.isAdditive with
      | true => simp [hmul, Option.filter_some]
      | false =>
          simp [hmul, Option.filter_some, Operator.rank_of_not_isAdditive hmul]

-- ================================================================ notes

/-- What is noted of an operator is a matter of the operators before
it. -/
theorem Plan.Complete.note_eq {p : Plan} (hc : p.Complete)
    {before : List Operator} (hspine : p.spine.map (·.2) = pending before)
    (op : Operator) : p.note op = Splice.after before op := by
  cases p with
  | vacant => exact hc.elim
  | leaf r x =>
      rw [pending_eq_nil_iff.1 hspine.symm]
      rfl
  | node r o left right =>
      have hne : before ≠ [] := by
        rintro rfl
        cases hspine
      rw [Splice.after_eq hne, ← hspine, List.find?_map, Plan.note]
      simp only [Function.comp_def]
      cases (Plan.node r o left right).spine.find? (op.rank ≤ ·.2.rank) with
      | none => rfl
      | some a => rfl

/-- The spine holds what is pending, also once one more operator is
spliced in. -/
theorem Plan.spine_splice_pending {p : Plan} {before : List Operator}
    (hspine : p.spine.map (·.2) = pending before) (n : Ref) (op : Operator) :
    (p.splice n op).spine.map (·.2) = pending (before ++ [op]) := by
  rw [Plan.spine_splice, List.map_append, pending_concat, ← hspine,
    List.takeWhile_map]
  rfl

namespace Builder

variable {g : Graph} {b : Builder} {p : Plan}

/-- A feed notes what the operators tell, and adds them to the history. -/
theorem Grown.feed_trace (h : Grown g b p) (hf : b.finalized = false)
    {before : List Operator} (hspine : p.spine.map (·.2) = pending before)
    (tokens : List String) :
    (b.feed g tokens).1 = Splice.trace before (b.expected.operators tokens)
      ∧ ∀ g' b', (b.feed g tokens).2 = .ok (g', b') →
        b'.history.length
          = b.history.length + (b.expected.operators tokens).length := by
  induction tokens generalizing g b p before with
  | nil =>
      refine ⟨rfl, fun g' b' hok => ?_⟩
      cases hok
      rfl
  | cons token tokens ih =>
      cases h.add_cases token with
      | closed hclosed _ =>
          rw [hf] at hclosed
          cases hclosed
      | notNumber _ he hread hadd =>
          rw [feed_cons_error tokens hadd]
          simp [Expected.operators, Item.read?, Splice.trace, he, hread]
      | notOperator _ he hread hadd =>
          rw [feed_cons_error tokens hadd]
          simp [Expected.operators, Item.read?, Splice.trace, he, hread]
      | value x g' b' _ he hread hadd hadv =>
          have htaken : b.expected.operators (token :: tokens)
              = b'.expected.operators tokens := by
            simp [Expected.operators, Item.read?, hadv.expected, he, hread]
          have hspine' : (p.fill g.size x).spine.map (·.2) = pending before := by
            rw [Plan.spine_fill, hspine]
          have hhistory : b'.history = b.history := by
            rw [hadv.grown.history, Plan.operators_fill, h.history]
          obtain ⟨htrace, hlength⟩ :=
            ih hadv.grown (hadv.finalized.trans hf) hspine'
          rw [feed_cons_ok tokens hadd, htaken, ← hhistory]
          exact ⟨htrace, hlength⟩
      | operator op g' b' _ he hread hadd hadv =>
          have htaken : b.expected.operators (token :: tokens)
              = op :: b'.expected.operators tokens := by
            simp [Expected.operators, Item.read?, hadv.expected, he, hread]
          have hhistory : b'.history.length = b.history.length + 1 := by
            rw [hadv.grown.history, Plan.operators_splice, ← h.history,
              List.length_append, List.length_singleton]
          obtain ⟨htrace, hlength⟩ :=
            ih hadv.grown (hadv.finalized.trans hf)
              (Plan.spine_splice_pending hspine g.size op)
          rw [feed_cons_ok tokens hadd, htaken,
            (h.isComplete he).note_eq hspine op]
          refine ⟨congrArg _ htrace, fun g'' b'' hok => ?_⟩
          rw [hlength g'' b'' hok, hhistory, List.length_cons]
          omega

theorem history_of_build {b' : Builder} {root : Option Ref}
    (h : b.build g = .ok (b', root)) : b'.history = b.history := by
  unfold build at h
  split at h
  · cases h
  · split at h
    · cases h
      rfl
    · split at h
      · cases h
      · split at h
        · cases h
        · cases h

/-- Constructing a formula notes what its operators tell, and the history
has as many entries as there are operators. -/
theorem construct_trace (g : Graph) (tokens : List String) :
    (construct g tokens).1
        = Splice.trace [] (Expected.value.operators tokens)
      ∧ ∀ g' b' root, (construct g tokens).2 = .ok (g', b', root) →
        b'.history.length = (Expected.value.operators tokens).length := by
  have hspine : Plan.vacant.spine.map (·.2) = pending [] := rfl
  obtain ⟨htrace, hlength⟩ := (grown_new g).feed_trace rfl hspine tokens
  refine ⟨htrace, fun g' b' root hok => ?_⟩
  obtain ⟨⟨g₁, b₁⟩, hfeed, hok⟩ := exists_ok_of_bind hok
  obtain ⟨⟨b₂, root₂⟩, hbuild, hok⟩ := exists_ok_of_bind hok
  cases hok
  rw [history_of_build hbuild, hlength _ b₁ hfeed]
  exact Nat.zero_add _

end Builder

-- ============================================================= on texts

/-- What is told in the end of how reading a text went. -/
def report (text : String) (count : Nat) :
    Except Error (Graph × Option Ref) → String
  | .ok _ =>
      "Parsed " ++ Text.quoted text ++ " with " ++ toString count ++ " operators"
  | .error e => "Failed to parse " ++ Text.quoted text ++ ": " ++ e.message

/-- Nothing is found wrong with what was constructed, if it is
validated. -/
theorem findings_of_construct {g g' : Graph} {tokens : List String}
    {b' : Builder} {root : Option Ref}
    (h : (Builder.construct g tokens).2 = .ok (g', b', root)) (validate : Bool) :
    (if validate then Inspection.validate else .skip).findings g' root
      = .ok [] := by
  obtain ⟨first, rest, -, hholds⟩ := Builder.construct_holds h
  cases validate with
  | false => rfl
  | true => exact hholds.validate

/-- Reading a text tells how its operators found their places, and in the
end how it went. -/
theorem parse_log (log : Log) (g : Graph) (text : String) (validate : Bool) :
    let outcome := parse log g text (if validate then .validate else .skip)
    let operators := Expected.value.operators (Token.tokenize text)
    outcome.1 = ((Splice.trace [] operators).foldl
        (fun l s => l.say log.logger.2 (.debug s.message)) log.logger.1).tell
      (.debug (report text operators.length outcome.2)) := by
  intro outcome operators
  obtain ⟨htrace, hlength⟩ := Builder.construct_trace g (Token.tokenize text)
  have houtcome : outcome
      = parse log g text (if validate then .validate else .skip) := rfl
  clear_value outcome
  unfold parse at houtcome
  dsimp only at houtcome
  rw [htrace] at houtcome
  rcases Builder.construct_cases g (Token.tokenize text) with
    ⟨first, rest, g', b', root, -, hok⟩ | ⟨e, herror, hsyntactic⟩
  · rw [hok] at houtcome
    dsimp only at houtcome
    rw [findings_of_construct hok validate, hlength g' b' _ hok] at houtcome
    rw [houtcome]
    dsimp only [report]
  · rw [herror] at houtcome
    dsimp only at houtcome
    rw [if_pos hsyntactic] at houtcome
    rw [houtcome]
    dsimp only [report]

/-- How it goes does not depend on the log, or on whether the tree is
validated. -/
theorem parse_outcome (log : Log) (g : Graph) (text : String)
    (validate : Bool) :
    (parse log g text (if validate then .validate else .skip)).2
      = (Builder.construct g (Token.tokenize text)).2.map
        fun (g', _, root) => (g', root) := by
  rw [← parse_skip log]
  cases validate with
  | false => rfl
  | true => exact parse_validate log g text

/-- A trace of what is being done, as it is written. -/
def traced (text : String) : Record := ⟨.debug, "DEBUG: " ++ text⟩

/-- What a logger lets through of a trace, all of it or nothing. -/
theorem Log.shown_debug (log : Log) (id : LoggerId) (text : String) :
    log.shown id (.debug text)
      = if log.level id = .verbose ∧ log.console = true then [traced text]
        else [] := by
  have hlevel : (Message.debug text).required.rank ≤ (log.level id).rank
      ↔ log.level id = .verbose := by
    show Level.verbose.rank ≤ _ ↔ _
    cases log.level id <;> decide
  unfold Log.shown
  simp only [hlevel]
  rfl

/-- What the console shows after a text is read: each splice and the
outcome, as far as the current logger lets them through. -/
theorem printed_parse {log : Log} {id : LoggerId} (h : log.current = some id)
    (g : Graph) (text : String) (validate : Bool) :
    let outcome := parse log g text (if validate then .validate else .skip)
    let operators := Expected.value.operators (Token.tokenize text)
    outcome.1.printed = log.printed
      ++ ((Splice.trace [] operators).map (·.message)
        ++ [report text operators.length outcome.2]).flatMap fun line =>
          log.shown id (.debug line) := by
  intro outcome operators
  have hlog := parse_log log g text validate
  have hcurrent : ((Splice.trace [] operators).foldl
      (fun l s => l.say id (.debug s.message)) log).current = some id := by
    rw [Log.current_foldl_say, h]
  rw [Log.logger_of_current h] at hlog
  dsimp only at hlog
  rw [hlog, Log.tell_of_current hcurrent, ← Log.printed_foldl_say,
    List.foldl_append, List.foldl_map, List.foldl_cons, List.foldl_nil]

/-- Whatever has been logged before: a text that is read after the log
was configured at the verbose level shows on the console how each of its
operators found its place, as the operators before it tell, and in the
end how it went; at any other level nothing is shown, and it goes the
same way. -/
theorem parse_traced (log : Log) (destination : Option Destination)
    (g : Graph) (text : String) (validate : Bool) :
    let read (level : Level) := parse (log.configure level destination) g text
      (if validate then .validate else .skip)
    let operators := Expected.value.operators (Token.tokenize text)
    (read .verbose).1.printed = log.printed
        ++ (Splice.trace [] operators).map (fun splice => traced splice.message)
        ++ [traced (report text operators.length (read .verbose).2)]
      ∧ ∀ level, level ≠ .verbose →
        (read level).1.printed = log.printed
          ∧ (read level).2 = (read .verbose).2 := by
  intro read operators
  have hlets : ∀ level : Level,
      (level = .verbose ∧ (level != .silent) = true) ↔ level = .verbose := by
    intro level
    cases level <;> decide
  have hprinted : ∀ level, (read level).1.printed = log.printed
      ++ ((Splice.trace [] operators).map (·.message)
        ++ [report text operators.length (read level).2]).flatMap fun line =>
          if level = .verbose then [traced line] else [] := by
    intro level
    have hshown : (read level).1.printed = _ :=
      printed_parse (log.current_configure level destination) g text validate
    rw [hshown, Log.printed_configure]
    simp only [Log.shown_debug, Log.level_configure, Log.console_configure,
      hlets]
    rfl
  refine ⟨?_, fun level hlevel => ⟨?_, ?_⟩⟩
  · rw [hprinted]
    simp only [if_true, ← List.map_eq_flatMap, List.map_append, List.map_map,
      List.append_assoc]
    rfl
  · rw [hprinted]
    simp [hlevel]
  · exact (parse_outcome _ g text validate).trans
      (parse_outcome _ g text validate).symm

/-- A text that is refused at its end: the difference displaces the
product before it, and the quotient extends its right branch. -/
theorem parse_traced_refused :
    let read (level : Level) :=
      parse (({} : Log).configure level none) .empty "2*3-4/5x" .skip
    (read .verbose).1.printed = [traced "- displaces *",
        traced "/ extends the right branch",
        traced "Failed to parse '2*3-4/5x': 'x' is not a valid operator"]
      ∧ (read .detailed).1.printed = []
      ∧ (read .detailed).2 = (read .verbose).2 := by
  intro read
  obtain ⟨hverbose, hquiet⟩ := parse_traced {} none .empty "2*3-4/5x" false
  obtain ⟨hnothing, hsame⟩ := hquiet .detailed nofun
  have hoperators : Expected.value.operators (Token.tokenize "2*3-4/5x")
      = [.mul, .sub, .div] := by decide +kernel
  have hreport : report "2*3-4/5x" 3 (read .verbose).2
      = "Failed to parse '2*3-4/5x': 'x' is not a valid operator" := by
    decide +kernel
  rw [hoperators] at hverbose
  refine ⟨hverbose.trans ?_, hnothing, hsame⟩
  exact congrArg (fun line => [traced "- displaces *",
    traced "/ extends the right branch", traced line]) hreport

end Formula
