/-
From text to formula: the text is cut into tokens, a new builder takes
them one by one, and the tree that it hands out may be inspected before
it is let through.  What happens on the way is told to the log: the
splices to the logger that was current when the builder was made, the
outcome to the current one.
-/
import Formula.Builder
import Formula.Graph.Validate
import Formula.Log

namespace Formula

/-- How a finished tree is inspected. -/
inductive Inspection where
  /-- It is let through. -/
  | skip
  /-- It is validated. -/
  | validate
  /-- These violations are what was found. -/
  | verdict (violations : List String)

/-- What an inspection finds. -/
def Inspection.findings (g : Graph) (root : Option Ref) : Inspection → Except Fault (List String)
  | .skip => .ok []
  | .validate => g.validate root
  | .verdict violations => .ok violations

namespace Builder

/-- Hands tokens to a builder until one is refused, and keeps a trace of
the splices. -/
def feed (g : Graph) (b : Builder) : List String → List Splice × Except Error (Graph × Builder)
  | [] => ([], .ok (g, b))
  | token :: tokens =>
    match b.add g token with
    | .error e => ([], .error e)
    | .ok (g, b, splice) =>
      let (trace, outcome) := b.feed g tokens
      (splice.toList ++ trace, outcome)

/-- Builds the formula of a list of tokens: the trace of its splices, and
the graph, the builder and the root that result. -/
def construct (g : Graph) (tokens : List String) :
    List Splice × Except Error (Graph × Builder × Option Ref) :=
  let (trace, fed) := ({} : Builder).feed g tokens
  (trace, do
    let (g, b) ← fed
    let (b, root) ← b.build g
    return (g, b, root))

end Builder

/-- Reads a formula into a graph; its root is handed back with the graph,
and the log says how it went. -/
def parse (log : Log) (g : Graph) (text : String) (inspection : Inspection) :
    Log × Except Error (Graph × Option Ref) :=
  let (log, logger) := log.logger
  let (trace, outcome) := Builder.construct g (Token.tokenize text)
  let log := trace.foldl (fun log splice => log.say logger (.debug splice.message)) log
  match outcome with
  | .error e =>
    if e.isSyntactic then
      (log.tell (.debug ("Failed to parse " ++ Text.quoted text ++ ": " ++ e.message)), .error e)
    else (log, .error e)
  | .ok (g, b, root) =>
    match inspection.findings g root with
    | .error e => (log, .error (.fault e))
    | .ok [] =>
      let count := toString b.history.length
      (log.tell (.debug ("Parsed " ++ Text.quoted text ++ " with " ++ count ++ " operators")),
        .ok (g, root))
    | .ok findings =>
      let listed := Text.quotedList findings
      (log.tell (.debug ("Rejected tree for " ++ Text.quoted text ++ ": " ++ listed)),
        .error (.malformed findings))

end Formula
