/-
Doing what a session is asked.  Each request runs to an answer or an
error; what it did before an error stays done.  After each request the
nodes that no name holds are released, and the console starts anew.
-/
import Formula.Session.Command

namespace Formula.Session

/-- A request being done: it changes the session, and may end in an
error. -/
abbrev Action (α : Type) := ExceptT Error (StateM Session) α

-- ============================================================= viewing

/-- The builder as it is shown. -/
def viewBuilder (g : Graph) (b : Builder) : Except Fault BuilderView := do
  return {
    expected := b.expected
    finalized := b.finalized
    head := ← g.outline b.head
    prev := ← g.label? b.prev
    history := b.history.filterMap g.operator?
    spine := ← b.history.mapM g.onRightSpine }

/-- The node as it is shown. -/
def viewNode (g : Graph) (r : Ref) : Except Fault NodeView := do
  let label ← g.label (some r)
  let parent ← g.label? (g.parent? r)
  match g.content? r with
  | some (.operator op left right) =>
    let some o := op | .error (.lacks .nothing "precedence")
    let operation := { rank := o.rank, left := ← g.label? left, right := ← g.label? right }
    return { label, kind := .operator, parent, operation := some operation }
  | _ => return { label, kind := .value, parent, operation := none }

/-- The current logger as it is shown. -/
def viewLogger (log : Log) (id : LoggerId) (toFile : Option Bool) : LoggerView :=
  { level := log.level id, toFile, console := log.console, file := log.file.isSome }

-- ============================================================= finding

/-- The fault that something stands where another kind was expected. -/
def lacks {α : Type} (s : Session) (r : Option Ref) (part : String) : Except Error α :=
  .error (.fault (.lacks (s.graph.holder r) part))

/-- The builder that a name stands for. -/
def worker (s : Session) (name : String) : Except Error (Nat × Worker) :=
  match s.object? name with
  | some (.builder id) =>
    match s.workers[id]? with
    | some w => .ok (id, w)
    | none => s.lacks none "add"
  | _ => s.lacks (s.place name) "add"

/-- Follows one link. -/
def hop (s : Session) (object : Object) (h : Hop) : Except Error Object :=
  match object, h with
  | .equation id, .root => .ok (.place (s.rootOf id))
  | .builder id, .head => .ok (.place (s.workers[id]?.bind (·.builder.head)))
  | .builder id, .prev => .ok (.place (s.workers[id]?.bind (·.builder.prev)))
  | .builder id, .history i => .ok (.place (s.workers[id]?.bind (·.builder.entry? i)))
  | .place r, .operand side =>
    if s.graph.holder r = .operator then .ok (.place (r.bind (s.graph.operand? · side)))
    else s.lacks r side.name
  | .place (some r), .parent => .ok (.place (s.graph.parent? r))
  | .place none, .parent => s.lacks none "parent"
  | .place r, .root => s.lacks r "root"
  | .place r, .head => s.lacks r "head"
  | .place r, .prev => s.lacks r "prev"
  | .place r, .history _ => s.lacks r "history"
  | _, _ => s.lacks none "parent"

-- =============================================================== doing

/-- Adds a node and binds it. -/
def newNode (name : String) (c : Content) : Action Unit :=
  modify fun s =>
    let (g, r) := s.graph.add c
    { s with graph := g }.assign name (.place (some r))

/-- Adds an equation and binds it. -/
def newEquation (name : String) (root : Option Ref) : Action Unit :=
  modify fun s =>
    { s with equations := s.equations.push { root } }.assign name (.equation s.equations.size)

/-- The text of what a name stands for; an equation remembers it. -/
def text (name : String) : Action String := do
  let s ← get
  match s.object? name with
  | some (.equation id) =>
    let some e := s.equations[id]? | s.lacks none "to_string"
    let (e, text) ← e.text s.graph
    set { s with equations := s.equations.setIfInBounds id e }
    return text
  | _ => s.graph.text (s.place name)

/-- The order of traversal that a word names; breadth first if there is
none. -/
def order : Option String → Except Error Graph.Order
  | none | some "breadth_first" => .ok .breadthFirst
  | some "depth_first" => .ok .depthFirst
  | some name => .error (.unknownOrder name)

/-- Reads the graph. -/
def read {α : Type} (f : Graph → Except Fault α) : Action α := do
  (f (← get).graph).mapError Error.fault

/-- Attaches an operand, or, if there is nothing to attach, takes the
operand away and fails. -/
def attach (owner : Option Ref) (side : Side) (child : Option Ref) : Action Unit := do
  match child with
  | some c =>
    let g ← read (·.adopt owner side c)
    modify ({ · with graph := g })
  | none =>
    let s ← get
    match owner, s.graph.holder owner with
    | some r, .operator =>
      set { s with graph := s.graph.link r side none }
      s.lacks none "parent"
    | _, _ => s.lacks owner ("set_" ++ side.name)

/-- Sets an operand and nothing else. -/
def link (owner : Option Ref) (side : Side) (child : Option Ref) : Action Unit := do
  let s ← get
  match owner, s.graph.holder owner with
  | some r, .operator => set { s with graph := s.graph.link r side child }
  | _, _ => s.lacks owner side.name

/-- Follows a path, and binds what it leads to. -/
def follow (name on : String) (path : List Hop) : Action Reply := do
  let s ← get
  let some start := s.object? on | s.lacks none "root"
  let object ← (path.foldlM s.hop start : Except Error Object)
  let reply ← match object with
    | .place r => Reply.ofLabel? <$> read (·.label? r)
    | .equation _ => (Reply.text ∘ Equation.label) <$> text on
    | _ => pure .nothing
  modify (·.assign name object)
  return reply

/-- Reads a formula, and binds it as an equation. -/
def parse (name text : String) (inspection : Inspection) : Action Reply := do
  let s ← get
  let (log, outcome) := Formula.parse s.log s.graph text inspection
  set { s with log }
  let (graph, root) ← outcome
  modify ({ · with graph })
  newEquation name root
  return .outline (← read (·.outline root))

/-- Starts a builder. -/
def newBuilder (name : String) : Action Reply := do
  modify fun s => { s with toWorkshop := s.hire }.assign name (.builder s.workers.size)
  return .builder (← read (viewBuilder · {}))

/-- Lets the builder that a name stands for work. -/
def employ {α : Type} (on : String) (work : Work α) : Action α := do
  let s ← get
  let (id, w) ← s.worker on
  let (result, workshop) := s.toWorkshop.employ id w work
  set { s with toWorkshop := workshop }
  result

/-- Hands a token to a builder. -/
def addToken (on token : String) : Action Reply := do
  employ on (Worker.add token)
  let (_, w) ← (← get).worker on
  return .builder (← read (viewBuilder · w.builder))

/-- Takes the formula from a builder, and binds it as an equation. -/
def build (name on : String) : Action Reply := do
  let equation ← employ on Worker.build
  newEquation name equation.root
  return .outline (← read (·.outline equation.root))

/-- Takes the next token from a stream. -/
def nextToken (on : String) : Action Reply := do
  let s ← get
  match s.object? on with
  | some (.stream id) =>
    match s.streams[id]? with
    | some (token :: rest) =>
      set { s with streams := s.streams.setIfInBounds id rest }
      return .text token
    | _ => throw .exhausted
  | _ => throw .exhausted

/-- The value of what a name stands for. -/
def evaluate (on : String) (manner : Manner) : Action Float := do
  let s ← get
  match s.object? on, manner with
  | some (.place r), .own => s.graph.evaluateQuietly overhead callLimit r
  | _, _ =>
    let (log, value) := s.graph.evaluateReporting s.log (s.place on)
    set { s with log }
    value

/-- Does what is asked. -/
def perform : Command → Action Reply
  | .newValue name n => do
    let x ← n.toFloat
    newNode name (.value x)
    return .text (← read fun _ => Graph.contentLabel (.value x))
  | .newOperator name symbol => do
    let op := Operator.ofSymbol? symbol
    newNode name (.operator op none none)
    return (op.map Reply.operator).getD .nothing
  | .newForeign name kind => do
    newNode name (.foreign kind)
    return .text (← read fun _ => Graph.contentLabel (.foreign kind))
  | .newEquation name on => do
    newEquation name ((← get).place on)
    return .nothing
  | .newBuilder name => newBuilder name
  | .newStream name text => do
    modify fun s =>
      { s with streams := s.streams.push (Token.tokenize text) }.assign name
        (.stream s.streams.size)
    return .nothing
  | .setValue on n => do
    let x ← n.toFloat
    let s ← get
    match s.place on, s.graph.holder (s.place on) with
    | some r, .value => set { s with graph := s.graph.setValue r x }
    | r, _ => s.lacks r "value"
    return .nothing
  | .attach on side child => do
    let s ← get
    attach (s.place on) side (s.place? child)
    return .nothing
  | .link on side child => do
    let s ← get
    link (s.place on) side (s.place? child)
    return .nothing
  | .setParent on parent => do
    let s ← get
    let some r := s.place on | s.lacks none "parent"
    set { s with graph := s.graph.setParent r (s.place? parent) }
    return .nothing
  | .bind name on path => follow name on path
  | .drop name => do
    modify (·.drop name)
    return .texts (← get).sortedNames
  | .describe on => do
    let s ← get
    let some r := s.place on | s.lacks none "node_type"
    return .node (← read (viewNode · r))
  | .traverse on name => do
    let order ← order name
    return .texts (← read (·.listing order ((← get).place on)))
  | .operators on => do
    let s ← get
    let nodes := (s.place on).toList.flatMap s.graph.operatorsBelow
    return .texts (← read fun g => nodes.mapM fun n => g.label (some n))
  | .leaves on => do
    let s ← get
    let nodes := (s.place on).toList.flatMap s.graph.valuesBelow
    return .texts (← read fun g => nodes.mapM fun n => g.label (some n))
  | .onRightSpine on => do
    let s ← get
    let some r := s.place on | s.lacks none "parent"
    return .flag (← read (·.onRightSpine r))
  | .validate on => do
    return .texts (← read (·.validate ((← get).place on)))
  | .isValid on => do
    return .flag (← read (·.isValid ((← get).place on)))
  | .evaluate on manner => return .number (← evaluate on manner)
  | .text on => return .text (← text on)
  | .label on => do
    let s ← get
    match s.object? on with
    | some (.equation _) => return .text (Equation.label (← text on))
    | _ => return .text (← read (·.label (s.place on)))
  | .size on => do
    let s ← get
    return .count (← s.graph.sizeBelow (s.place on))
  | .depth on => do
    let s ← get
    return .count (s.graph.height (s.place on))
  | .algebra on => do
    let s ← get
    return .algebra (← s.graph.algebraicForm overhead callLimit (s.place on))
  | .parse name text inspection => parse name text inspection
  | .add on token => addToken on token
  | .build name on => build name on
  | .inspect on => do
    let (_, w) ← (← get).worker on
    return .builder (← read (viewBuilder · w.builder))
  | .next on => nextToken on
  | .configure level destination => do
    modify fun s => { s with log := s.log.configure level destination }
    let (log, id) := (← get).log.logger
    return .logger (viewLogger log id (some destination.isSome))
  | .setLevel level => do
    modify fun s => { s with log := s.log.setLevel level }
    return .nothing
  | .logger => do
    let s ← get
    let (log, id) := s.log.logger
    set { s with log }
    return .logger (viewLogger log id none)
  | .tell message => do
    modify fun s => { s with log := s.log.tell message }
    return .nothing
  | .savedLog => return .text (← get).log.fileText

-- ============================================================== asking

/-- The builder that refused a request. -/
def refusing? (s : Session) : Command → Option BuilderView
  | .add on _ | .build _ on => do
    let (_, w) ← (s.worker on).toOption
    (viewBuilder s.graph w.builder).toOption
  | _ => none

/-- Does what is asked, and says what came of it. -/
def step (s : Session) (c : Command) : Session × Outcome :=
  let (result, s) := (perform c).run s
  let builder := match result with
    | .ok _ => none
    | .error _ => s.refusing? c
  let outcome := { result, builder, records := s.log.printed }
  ({ s with log := { s.log with printed := [] } }.settle, outcome)

/-- Does what is asked, request after request. -/
def run (s : Session) : List Command → List Outcome
  | [] => []
  | c :: commands =>
    let (s, outcome) := s.step c
    outcome :: s.run commands

end Formula.Session
