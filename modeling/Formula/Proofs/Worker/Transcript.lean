/-
Calls on a builder, and what they are answered.  A desk is taken through
any number of calls, refused ones included; `after` is the desk that
results, `transcript` each call with its answer.

`call_cases` lists everything that one call can come to.  A call is refused
for one of the reasons that belong to it, and then the desk is exactly as
it was; or a token is taken and the plan grows by what it stands for; or
the formula is handed out, and from then on every call is refused.  So the
refused calls of a run can be left out of it, and nothing else changes
(`refused_calls_leave_no_trace`).
-/
import Formula.Proofs.Plan.Item
import Formula.Proofs.Builder.Run
import Formula.Proofs.Worker.Calls

namespace Formula

/-- What a call is answered: an error, or the equation that it hands out,
if it does. -/
abbrev Answer := Except Error (Option Equation)

namespace Call

/-- The work that a call asks for. -/
def work : Call → Work (Option Equation)
  | .add token => do
      Worker.add token
      return none
  | .build => do
      return some (← Worker.build)

/-- Why a call may be refused. -/
def Refuses : Call → Error → Prop
  | .add token, e => e = .addAfterBuild
      ∨ ∃ n, e = .notNumber token n ∨ e = .notOperator token n
  | .build, e => e = .buildAfterBuild
      ∨ ∃ n, e = .empty n ∨ ∃ op : Operator, e = .trailing op.symbol n

/-- Why it is refused once the formula has been handed out. -/
def closed : Call → Error
  | .add _ => .addAfterBuild
  | .build => .buildAfterBuild

end Call

/-- What a call is refused with, if it is, by a builder that has grown a
plan. -/
def Builder.refusal? (b : Builder) (p : Plan) : Call → Option Error
  | .add token =>
      if b.finalized then some .addAfterBuild
      else
        match b.expected, Item.read? b.expected token with
        | _, some _ => none
        | .value, none => some (.notNumber token b.position)
        | .operator, none => some (.notOperator token b.position)
  | .build =>
      if b.finalized then some .buildAfterBuild
      else
        match b.expected, p.spine.getLast? with
        | .operator, _ => none
        | .value, none => some (.empty b.position)
        | .value, some (_, op) => some (.trailing op.symbol (b.position - 1))

/-- A call and what it was answered. -/
structure Exchange where
  call : Call
  answer : Answer

namespace Exchange

/-- Whether the call was not refused. -/
def succeeds (x : Exchange) : Bool := x.answer.isOk

/-- The token that the call handed over, if it was taken. -/
def taken? (x : Exchange) : Option String :=
  match x.call, x.answer with
  | .add token, .ok _ => some token
  | _, _ => none

/-- The equation that the call was given, if it was. -/
def equation? (x : Exchange) : Option Equation :=
  match x.answer with
  | .ok e => e
  | .error _ => none

end Exchange

namespace Desk

/-- The desk of a new builder. -/
def new (g : Graph) (log : Log) (logger : LoggerId) : Desk :=
  ⟨g, log, { builder := {}, logger }⟩

/-- One call. -/
def call (d : Desk) (c : Call) : Answer × Desk := d.perform c.work

/-- The desk after some calls. -/
def after (d : Desk) (calls : List Call) : Desk :=
  calls.foldl (fun d c => (d.call c).2) d

/-- The calls and what they are answered, one after another. -/
def transcript (d : Desk) : List Call → List Exchange
  | [] => []
  | c :: calls => ⟨c, (d.call c).1⟩ :: (d.call c).2.transcript calls

/-- The desk once the formula has been handed out. -/
def closed (d : Desk) : Desk :=
  d.advance d.graph { d.worker.builder with finalized := true } none

/-- What is true of a desk between calls on its builder. -/
def Grown (d : Desk) (p : Plan) : Prop := d.worker.builder.Grown d.graph p

variable {d : Desk} {p : Plan}

-- ============================================================= one call

/-- Each call is refused for reasons of its own. -/
theorem refuses_of_refusal? {b : Builder} {c : Call} {e : Error}
    (h : b.refusal? p c = some e) : c.Refuses e := by
  cases c with
  | add token =>
      rw [Builder.refusal?] at h
      split at h
      · exact .inl (Option.some.inj h).symm
      · split at h
        · cases h
        · exact .inr ⟨_, .inl (Option.some.inj h).symm⟩
        · exact .inr ⟨_, .inr (Option.some.inj h).symm⟩
  | build =>
      rw [Builder.refusal?] at h
      split at h
      · exact .inl (Option.some.inj h).symm
      · split at h
        · cases h
        · exact .inr ⟨_, .inl (Option.some.inj h).symm⟩
        · exact .inr ⟨_, .inr ⟨_, (Option.some.inj h).symm⟩⟩

theorem call_add {token : String} {g : Graph} {b : Builder}
    {note : Option Splice}
    (h : d.worker.builder.add d.graph token = .ok (g, b, note)) :
    d.call (.add token) = (.ok none, d.advance g b note) :=
  perform_bind _ (Worker.perform_add h)

theorem Grown.call_add_error (hd : d.Grown p) {token : String} {e : Error}
    (h : d.worker.builder.add d.graph token = .error e) :
    d.call (.add token) = (.error e, d) := by
  refine perform_bind_error _ ?_
  rw [Builder.Grown.perform_add hd, h]

theorem call_build {b : Builder} {root : Option Ref}
    (h : d.worker.builder.build d.graph = .ok (b, root)) :
    d.call .build = (.ok (some { root }), d.advance d.graph b none) := by
  refine (perform_bind _ (a := { root }) ?_).trans rfl
  rw [Worker.perform_build, h]

theorem call_build_error {e : Error}
    (h : d.worker.builder.build d.graph = .error e) :
    d.call .build = (.error e, d) := by
  refine perform_bind_error _ ?_
  rw [Worker.perform_build, h]

/-- Everything that a call can come to at the desk of a builder that has
grown. -/
inductive CallCases (d : Desk) (p : Plan) : Call → Prop
  | refused {c : Call} (e : Error) (hcall : d.call c = (.error e, d))
      (hwhy : d.worker.builder.refusal? p c = some e) : CallCases d p c
  | taken (token : String) (item : Item) (d' : Desk)
      (hf : d.worker.builder.finalized = false)
      (hread : Item.read? d.worker.builder.expected token = some item)
      (hcall : d.call (.add token) = (.ok none, d'))
      (hadv : d.worker.builder.Advances d.graph p d'.graph d'.worker.builder
        (p.grow d.graph.size item)) : CallCases d p (.add token)
  | built (hf : d.worker.builder.finalized = false)
      (he : d.worker.builder.expected = .operator)
      (hcall : d.call .build = (.ok (some { root := p.top }), d.closed)) :
      CallCases d p .build

theorem Grown.call_cases (hd : d.Grown p) (c : Call) : CallCases d p c := by
  cases c with
  | add token =>
      cases Builder.Grown.add_cases hd token with
      | closed hf hadd =>
          refine .refused _ (hd.call_add_error hadd) ?_
          simp [Builder.refusal?, hf]
      | notNumber hf he hread hadd =>
          refine .refused _ (hd.call_add_error hadd) ?_
          simp [Builder.refusal?, Item.read?, hf, he, hread]
      | notOperator hf he hread hadd =>
          refine .refused _ (hd.call_add_error hadd) ?_
          simp [Builder.refusal?, Item.read?, hf, he, hread]
      | value x g' b' hf he hread hadd hadv =>
          refine .taken token (.number x) _ hf ?_ (call_add hadd) hadv
          simp [Item.read?, he, hread]
      | operator op g' b' hf he hread hadd hadv =>
          refine .taken token (.operator op) _ hf ?_ (call_add hadd) hadv
          simp [Item.read?, he, hread]
  | build =>
      cases Builder.Grown.build_cases hd with
      | closed hf hbuild =>
          refine .refused _ (call_build_error hbuild) ?_
          simp [Builder.refusal?, hf]
      | empty hf he hp hbuild =>
          refine .refused _ (call_build_error hbuild) ?_
          simp [Builder.refusal?, Plan.spine, hf, he, hp]
      | trailing q op hf he hlast hbuild =>
          refine .refused _ (call_build_error hbuild) ?_
          simp [Builder.refusal?, hf, he, hlast]
      | built hf he hbuild => exact .built hf he (call_build hbuild)

/-- Every call leaves a desk whose builder has grown. -/
theorem Grown.call (hd : d.Grown p) (c : Call) : ∃ p', (d.call c).2.Grown p' := by
  cases hd.call_cases c with
  | refused e hcall _ =>
      rw [hcall]
      exact ⟨p, hd⟩
  | taken token item d' _ _ hcall hadv =>
      rw [hcall]
      exact ⟨_, hadv.grown⟩
  | built _ _ hcall =>
      rw [hcall]
      exact ⟨p, Builder.Grown.finalize hd⟩

/-- A call that is refused leaves the desk as it was. -/
theorem Grown.eq_of_refused (hd : d.Grown p) {c : Call} {e : Error}
    {d' : Desk} (h : d.call c = (.error e, d')) : d' = d := by
  cases hd.call_cases c with
  | refused e' hcall _ =>
      rw [hcall] at h
      exact (Prod.ext_iff.1 h).2.symm
  | taken token item d'' _ _ hcall _ =>
      rw [hcall] at h
      cases h
  | built _ _ hcall =>
      rw [hcall] at h
      cases h

/-- Once the formula has been handed out every call is refused. -/
theorem call_of_finalized (hf : d.worker.builder.finalized = true) (c : Call) :
    d.call c = (.error c.closed, d) := by
  cases c with
  | add token =>
      refine perform_bind_error _ ?_
      rw [Worker.add, perform_get, hf]
      rfl
  | build =>
      refine call_build_error ?_
      unfold Builder.build
      rw [hf]
      rfl

-- ============================================================ many calls

theorem grown_new (g : Graph) (log : Log) (logger : LoggerId) :
    (new g log logger).Grown .vacant :=
  Builder.grown_new g

theorem Grown.after (hd : d.Grown p) (calls : List Call) :
    ∃ p', (d.after calls).Grown p' := by
  induction calls generalizing d p with
  | nil => exact ⟨p, hd⟩
  | cons c calls ih =>
      obtain ⟨p', hd'⟩ := hd.call c
      exact ih hd'

/-- Whatever is called, it is refused for a reason of its own if at
all. -/
theorem Grown.refuses_of_mem (hd : d.Grown p) {calls : List Call}
    {x : Exchange} (hx : x ∈ d.transcript calls) {e : Error}
    (he : x.answer = .error e) : x.call.Refuses e := by
  induction calls generalizing d p with
  | nil => cases hx
  | cons c calls ih =>
      rcases List.mem_cons.1 hx with rfl | hx
      · cases hd.call_cases c with
        | refused e' hcall hwhy =>
            rw [hcall] at he
            cases he
            exact refuses_of_refusal? hwhy
        | taken token item d' _ _ hcall _ =>
            rw [hcall] at he
            cases he
        | built _ _ hcall =>
            rw [hcall] at he
            cases he
      · obtain ⟨p', hd'⟩ := hd.call c
        exact ih hd' hx

/-- A desk whose formula has been handed out stays as it is. -/
theorem after_of_finalized (hf : d.worker.builder.finalized = true)
    (calls : List Call) : d.after calls = d := by
  induction calls with
  | nil => rfl
  | cons c calls ih =>
      show ((d.call c).2).after calls = d
      rw [call_of_finalized hf c]
      exact ih

theorem answer_of_finalized (hf : d.worker.builder.finalized = true)
    {calls : List Call} {x : Exchange} (hx : x ∈ d.transcript calls) :
    x.answer = .error x.call.closed := by
  induction calls with
  | nil => cases hx
  | cons c calls ih =>
      rw [transcript, call_of_finalized hf c] at hx
      rcases List.mem_cons.1 hx with rfl | hx
      · rfl
      · exact ih hx

/-- The refused calls of a run can be left out of it. -/
theorem Grown.leave_out_refused (hd : d.Grown p) (calls : List Call) :
    let kept := (d.transcript calls).filter (·.succeeds)
    d.after (kept.map (·.call)) = d.after calls
      ∧ d.transcript (kept.map (·.call)) = kept := by
  induction calls generalizing d p with
  | nil => exact ⟨rfl, rfl⟩
  | cons c calls ih =>
      obtain ⟨p', hd'⟩ := hd.call c
      obtain ⟨hafter, htranscript⟩ := ih hd'
      cases hanswer : (d.call c).1 with
      | error e =>
          -- the call is left out, and the desk does not notice
          have hsame : (d.call c).2 = d :=
            hd.eq_of_refused (Prod.ext_iff.2 ⟨hanswer, rfl⟩)
          have hskip : ¬ (Exchange.mk c (d.call c).1).succeeds = true := by
            rw [hanswer]
            exact Bool.false_ne_true
          intro kept
          have hkept : kept = (d.transcript calls).filter (·.succeeds) := by
            show ((⟨c, (d.call c).1⟩ : Exchange)
              :: (d.call c).2.transcript calls).filter (·.succeeds) = _
            rw [List.filter_cons_of_neg hskip, hsame]
          rw [hsame] at hafter htranscript
          rw [hkept]
          refine ⟨hafter.trans ?_, htranscript⟩
          show d.after calls = (d.call c).2.after calls
          rw [hsame]
      | ok equation =>
          have hkeep : (Exchange.mk c (d.call c).1).succeeds = true := by
            rw [hanswer]
            rfl
          intro kept
          have hkept : kept = ⟨c, (d.call c).1⟩
              :: ((d.call c).2.transcript calls).filter (·.succeeds) :=
            List.filter_cons_of_pos hkeep
          rw [hkept]
          exact ⟨hafter, congrArg (_ :: ·) htranscript⟩

/-- At most one equation is handed out. -/
theorem Grown.length_equations_le_one (hd : d.Grown p) (calls : List Call) :
    ((d.transcript calls).filterMap (·.equation?)).length ≤ 1 := by
  induction calls generalizing d p with
  | nil => exact Nat.zero_le 1
  | cons c calls ih =>
      rw [transcript]
      cases hd.call_cases c with
      | refused e hcall _ =>
          rw [hcall]
          exact ih hd
      | taken token item d' _ _ hcall hadv =>
          rw [hcall]
          exact ih (d := d') hadv.grown
      | built _ _ hcall =>
          -- nothing is handed out after that
          have hnone : (d.closed.transcript calls).filterMap (·.equation?)
              = [] := by
            refine List.filterMap_eq_nil_iff.2 fun x hx => ?_
            unfold Exchange.equation?
            rw [answer_of_finalized (d := d.closed) rfl hx]
          rw [hcall]
          show (_ :: (d.closed.transcript calls).filterMap
            (·.equation?)).length ≤ 1
          rw [hnone, List.length_singleton]

-- ============================================================ every run

/-- Whatever is called on a new builder: a call is refused for a reason of
its own if at all, and then leaves the desk exactly as it was; without the
refused calls the run ends at the same desk, and the others are answered
the same; and once the formula has been handed out every call is refused,
so that it is handed out once at most and stays what it is. -/
theorem refused_calls_leave_no_trace (g : Graph) (log : Log)
    (logger : LoggerId) (calls : List Call) :
    let d := new g log logger
    let exchanges := d.transcript calls
    let kept := exchanges.filter (·.succeeds)
    (∀ x ∈ exchanges, ∀ e, x.answer = .error e → x.call.Refuses e)
      ∧ (∀ c e d', (d.after calls).call c = (.error e, d') →
        d' = d.after calls)
      ∧ d.after (kept.map (·.call)) = d.after calls
      ∧ d.transcript (kept.map (·.call)) = kept
      ∧ (∀ equation d', (d.after calls).call .build = (.ok equation, d') →
        ∀ later, d'.after later = d'
          ∧ ∀ x ∈ d'.transcript later, x.answer = .error x.call.closed)
      ∧ (exchanges.filterMap (·.equation?)).length ≤ 1 := by
  intro d exchanges kept
  have hnew : d.Grown .vacant := grown_new g log logger
  obtain ⟨p, hd⟩ := hnew.after calls
  obtain ⟨hafter, htranscript⟩ := hnew.leave_out_refused calls
  refine ⟨fun x hx e => hnew.refuses_of_mem hx, ?_, hafter, htranscript, ?_,
    hnew.length_equations_le_one calls⟩
  · intro c e d' hcall
    exact hd.eq_of_refused hcall
  · intro equation d' hcall later
    have hf : d'.worker.builder.finalized = true := by
      cases hd.call_cases .build with
      | refused e hrefused _ =>
          rw [hrefused] at hcall
          cases hcall
      | built _ _ hbuilt =>
          rw [hbuilt] at hcall
          cases hcall
          rfl
    exact ⟨after_of_finalized hf later, fun x hx => answer_of_finalized hf hx⟩

/-- Tokens out of turn and a formula asked for too soon are as if they had
not been, one more refusal changes nothing, and once the formula is handed
out nothing is taken any more. -/
theorem refused_calls_leave_no_trace_retry :
    let d := new .empty {} 0
    let d' := d.after [.add "1", .add "2", .add "+", .build, .add "3"]
    d.after [.add "1", .add "+", .add "3"] = d'
      ∧ d'.after [.add "4"] = d'
      ∧ (d'.call .build).2.after [.add "*", .build] = (d'.call .build).2 := by
  intro d d'
  obtain ⟨-, hsame, hkept, -, hbuilt, -⟩ := refused_calls_leave_no_trace
    .empty {} 0 [.add "1", .add "2", .add "+", .build, .add "3"]
  have hcalls : ((d.transcript [.add "1", .add "2", .add "+", .build,
      .add "3"]).filter (·.succeeds)).map (·.call)
      = [.add "1", .add "+", .add "3"] := by decide +kernel
  have hrefused : (d'.call (.add "4")).1.isOk = false := by decide +kernel
  have hanswered : (d'.call .build).1.isOk = true := by decide +kernel
  rw [hcalls] at hkept
  refine ⟨hkept, ?_, ?_⟩
  · change ∀ c e d'', d'.call c = (.error e, d'') → d'' = d' at hsame
    clear_value d'
    rcases hcall : d'.call (.add "4") with ⟨e | equation, d''⟩
    · show (d'.call (.add "4")).2 = d'
      rw [hcall]
      exact hsame _ e d'' hcall
    · rw [hcall] at hrefused
      cases hrefused
  · change ∀ equation d'', d'.call .build = (.ok equation, d'') →
      ∀ later, d''.after later = d'' ∧ _ at hbuilt
    clear_value d'
    rcases hcall : d'.call .build with ⟨e | equation, d''⟩
    · rw [hcall] at hanswered
      cases hanswered
    · exact (hbuilt equation d'' hcall _).1

end Desk

end Formula
