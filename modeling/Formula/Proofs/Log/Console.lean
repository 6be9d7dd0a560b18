/-
What the calls on a log do to what can be asked of it: the levels of its
loggers, which of them is current, whether the console is a sink, and
what the console shows.  The files have no part in any of the four.

A message that is handed to a logger shows on the console once or not at
all (`printed_say`), and handing it over changes nothing else that is
asked of a log.
-/
import Formula.Log

namespace Formula.Log

variable {log : Log} {id : LoggerId} {level : Level}

/-- What the console shows of a message that is handed to a logger. -/
def shown (log : Log) (id : LoggerId) (m : Message) : List Record :=
  if m.required.rank ≤ (log.level id).rank ∧ log.console = true then [m.record]
  else []

-- ============================================================= starting

theorem printed_openFile (log : Log) (destination : Option Destination) :
    (log.openFile destination).printed = log.printed := by
  unfold openFile
  split
  · rfl
  · rfl
  · split <;> rfl

@[simp] theorem levels_configure (log : Log) (level : Level)
    (destination : Option Destination) :
    (log.configure level destination).levels = log.levels.push level := rfl

@[simp] theorem console_configure (log : Log) (level : Level)
    (destination : Option Destination) :
    (log.configure level destination).console = (level != .silent) := rfl

@[simp] theorem current_configure (log : Log) (level : Level)
    (destination : Option Destination) :
    (log.configure level destination).current = some log.levels.size := rfl

@[simp] theorem printed_configure (log : Log) (level : Level)
    (destination : Option Destination) :
    (log.configure level destination).printed = log.printed :=
  log.printed_openFile destination

/-- A logger that was configured last has the level that it was given. -/
theorem level_configure (log : Log) (level : Level)
    (destination : Option Destination) :
    (log.configure level destination).level log.levels.size = level := by
  simp [Log.level]

theorem logger_of_current (h : log.current = some id) : log.logger = (log, id) := by
  simp only [logger, h]

/-- The first logger that is asked for is configured at the moderate
level. -/
theorem logger_of_none (h : log.current = none) :
    log.logger = (log.configure .moderate none, log.levels.size) := by
  simp only [logger, h]
  rfl

theorem setLevel_of_current (h : log.current = some id) (level : Level) :
    log.setLevel level
      = { log with levels := log.levels.setIfInBounds id level } := by
  simp only [setLevel, h]

theorem setLevel_of_none (h : log.current = none) (level : Level) :
    log.setLevel level = log.configure level none := by
  simp only [setLevel, h]

-- =============================================================== saying

@[simp] theorem levels_say (log : Log) (id : LoggerId) (m : Message) :
    (log.say id m).levels = log.levels := by
  unfold say
  split <;> rfl

@[simp] theorem level_say (log : Log) (id id' : LoggerId) (m : Message) :
    (log.say id m).level id' = log.level id' := by
  rw [level, levels_say, level]

@[simp] theorem current_say (log : Log) (id : LoggerId) (m : Message) :
    (log.say id m).current = log.current := by
  unfold say
  split <;> rfl

@[simp] theorem console_say (log : Log) (id : LoggerId) (m : Message) :
    (log.say id m).console = log.console := by
  unfold say
  split <;> rfl

theorem printed_say (log : Log) (id : LoggerId) (m : Message) :
    (log.say id m).printed = log.printed ++ log.shown id m := by
  unfold say shown
  by_cases hlevel : m.required.rank ≤ (log.level id).rank
  · rw [if_pos hlevel, write]
    cases log.console <;> simp [hlevel]
  · simp [hlevel]

/-- What is shown depends on no more than the level and the console. -/
theorem shown_say (log : Log) (id id' : LoggerId) (m m' : Message) :
    (log.say id m).shown id' m' = log.shown id' m' := by
  unfold shown
  rw [level_say, console_say]

/-- The current logger is what a message that names none goes through. -/
theorem tell_of_current (h : log.current = some id) (m : Message) :
    log.tell m = log.say id m := by
  simp only [tell, logger_of_current h]

theorem current_foldl_say {α : Type} (message : α → Message) (xs : List α)
    (log : Log) (id : LoggerId) :
    (xs.foldl (fun log x => log.say id (message x)) log).current
      = log.current := by
  induction xs generalizing log with
  | nil => rfl
  | cons x xs ih => rw [List.foldl_cons, ih, current_say]

/-- Messages that are handed to one logger show one after another. -/
theorem printed_foldl_say {α : Type} (message : α → Message) (xs : List α)
    (log : Log) (id : LoggerId) :
    (xs.foldl (fun log x => log.say id (message x)) log).printed
      = log.printed ++ xs.flatMap fun x => log.shown id (message x) := by
  induction xs generalizing log with
  | nil => exact (List.append_nil _).symm
  | cons x xs ih =>
      rw [List.foldl_cons, ih, printed_say, List.flatMap_cons, List.append_assoc]
      simp only [shown_say]

end Formula.Log
