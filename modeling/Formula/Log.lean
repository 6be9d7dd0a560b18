/-
The log.  A logger is no more than a level; what it lets through goes to
sinks that all loggers share: the console, and perhaps a file.  Starting
a logger replaces the sinks for every logger, those of old loggers
included, while each logger keeps its own level.  One logger is the
current one; asking for it starts it, at the moderate level, if there is
none yet.
-/
namespace Formula

/-- How much a logger lets through. -/
inductive Level where
  | silent
  | minimal
  | moderate
  | detailed
  | verbose
deriving DecidableEq

namespace Level

/-- Every level, from the quietest up. -/
def all : List Level := [.silent, .minimal, .moderate, .detailed, .verbose]

/-- The place among the levels, counted from zero. -/
def rank : Level → Nat
  | .silent => 0
  | .minimal => 1
  | .moderate => 2
  | .detailed => 3
  | .verbose => 4

/-- The word for the level. -/
def name : Level → String
  | .silent => "SILENT"
  | .minimal => "MINIMAL"
  | .moderate => "MODERATE"
  | .detailed => "DETAILED"
  | .verbose => "VERBOSE"

/-- The level that a word names. -/
def ofName? (name : String) : Option Level :=
  all.find? (·.name == name)

end Level

/-- What a record is marked as. -/
inductive Severity where
  | info
  | warning
  | debug
deriving DecidableEq

/-- The mark. -/
def Severity.name : Severity → String
  | .info => "INFO"
  | .warning => "WARNING"
  | .debug => "DEBUG"

/-- A record of the log. -/
structure Record where
  severity : Severity
  text : String
deriving DecidableEq

/-- The line that a record is written as, but for the time. -/
def Record.line (r : Record) : String :=
  r.severity.name ++ " - " ++ r.text

/-- A message as it is handed to a logger: the record, and the level from
which on it is let through. -/
structure Message where
  required : Level
  record : Record
deriving DecidableEq

namespace Message

/-- General information, wanted from a level on. -/
def info (text : String) (required : Level) : Message := ⟨required, ⟨.info, text⟩⟩

/-- A warning, wanted by every logger that is not silent. -/
def warning (text : String) : Message := ⟨.minimal, ⟨.warning, text⟩⟩

/-- A trace of what is being done, wanted at the verbose level only. -/
def debug (text : String) : Message := ⟨.verbose, ⟨.debug, "DEBUG: " ++ text⟩⟩

end Message

/-- A logger's place among those that have been started. -/
abbrev LoggerId := Nat

/-- The files that a log can be kept in. -/
inductive Destination where
  /-- A new file. -/
  | fresh
  /-- The one file that is used when none is named. -/
  | usual
deriving DecidableEq

/-- The loggers, the sinks they share, and what has been written. -/
structure Log where
  /-- The level of every logger that has been started. -/
  levels : Array Level := #[]
  /-- The current logger. -/
  current : Option LoggerId := none
  /-- Whether the console is a sink. -/
  console : Bool := false
  /-- The file that is a sink. -/
  file : Option Nat := none
  /-- What each file holds. -/
  files : Array (List Record) := #[]
  /-- The usual file, once there is one. -/
  usual : Option Nat := none
  /-- The file that was chosen last. -/
  latest : Option Nat := none
  /-- What the console shows. -/
  printed : List Record := []

namespace Log

-- ============================================================ loggers

/-- Chooses a file. -/
def openFile (log : Log) : Option Destination → Log
  | none => { log with file := none }
  | some .fresh =>
    let id := log.files.size
    { log with files := log.files.push [], file := some id, latest := some id }
  | some .usual =>
    match log.usual with
    | some id => { log with file := some id, latest := some id }
    | none =>
      let id := log.files.size
      { log with
        files := log.files.push [], usual := some id, file := some id, latest := some id }

/-- Starts a logger and replaces the sinks: the console is one unless the
level is silent. -/
def start (log : Log) (level : Level) (destination : Option Destination) :
    Log × LoggerId :=
  ({ log.openFile destination with
      levels := log.levels.push level
      console := level != .silent },
   log.levels.size)

/-- Starts a logger and makes it the current one. -/
def configure (log : Log) (level : Level) (destination : Option Destination) : Log :=
  let (log, id) := log.start level destination
  { log with current := some id }

/-- The current logger, which is started if there is none. -/
def logger (log : Log) : Log × LoggerId :=
  match log.current with
  | some id => (log, id)
  | none =>
    let (log, id) := log.start .moderate none
    ({ log with current := some id }, id)

/-- Sets the level of the current logger.  The sinks stay as they are,
unless there is no logger and one is started at this level. -/
def setLevel (log : Log) (level : Level) : Log :=
  match log.current with
  | some id => { log with levels := log.levels.setIfInBounds id level }
  | none => log.configure level none

/-- The level of a logger. -/
def level (log : Log) (id : LoggerId) : Level :=
  log.levels.getD id .silent

-- ============================================================= writing

/-- Writes a record to every sink. -/
def write (log : Log) (r : Record) : Log :=
  { log with
    printed := if log.console then log.printed ++ [r] else log.printed
    files :=
      match log.file with
      | some id => log.files.modify id (· ++ [r])
      | none => log.files }

/-- Hands a message to a logger. -/
def say (log : Log) (id : LoggerId) (m : Message) : Log :=
  if m.required.rank ≤ (log.level id).rank then log.write m.record else log

/-- Hands a message to the current logger. -/
def tell (log : Log) (m : Message) : Log :=
  let (log, id) := log.logger
  log.say id m

/-- What the file that was chosen last holds: a line for every record. -/
def fileText (log : Log) : String :=
  let records := (log.latest.bind (log.files[·]?)).getD []
  String.join (records.map (·.line ++ "\n"))

end Log

end Formula
