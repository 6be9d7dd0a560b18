/-
The loggers of a log, as what has been asked of it tells them.  A roster
lists every logger that has been started, oldest first, each with the
level that it was started at and the level that it has.  The last one is
current: starting a logger makes it so, and nothing else does.

# Two levels

A message is let through by the level that its logger has.  Whether it
then shows on the console is decided by the level that the last logger was
started at, whoever says it: only a silent start leaves the console
without a sink, and a level that is set later does not make up for that,
nor take the sink away (`Roster.lets`).

`Lists roster log`: the log is as the roster says.  Every call on the log
has its counterpart on the roster and keeps the two in step.
-/
import Formula.Proofs.Log.Console

namespace Formula

/-- A logger: the level that it was started at, and the one that it
has. -/
structure Logger where
  start : Level
  level : Level
deriving DecidableEq

/-- A logger that has just been started. -/
def Logger.started (level : Level) : Logger := ⟨level, level⟩

/-- The loggers that have been started, oldest first. -/
abbrev Roster := List Logger

namespace Roster

/-- The roster once a logger has been asked for: if there is none, one is
started. -/
def ensure (roster : Roster) (level : Level) : Roster :=
  if roster = [] then [.started level] else roster

/-- The roster with another level for the last logger. -/
def setLast (roster : Roster) (level : Level) : Roster :=
  roster.dropLast ++ roster.getLast?.toList.map ({ · with level })

/-- Whether a message that is handed to a logger shows on the console: the
logger's level lets it through, and the last logger was not started
silent. -/
def lets (roster : Roster) (id : LoggerId) (m : Message) : Bool :=
  roster[id]?.any (m.required.rank ≤ ·.level.rank)
    && roster.getLast?.any (·.start != .silent)

/-- What shows of it. -/
def shown (roster : Roster) (id : LoggerId) (m : Message) : List Record :=
  if roster.lets id m then [m.record] else []

variable {roster : Roster} {log : Log} {id : LoggerId}

theorem setLast_concat (roster : Roster) (last : Logger) (level : Level) :
    setLast (roster ++ [last]) level = roster ++ [{ last with level }] := by
  simp [setLast]

theorem ensure_concat (roster : Roster) (last : Logger) (level : Level) :
    ensure (roster ++ [last]) level = roster ++ [last] :=
  if_neg (by simp)

theorem length_le_ensure (roster : Roster) (level : Level) :
    roster.length ≤ (roster.ensure level).length := by
  unfold ensure
  split
  · next h => simp [h]
  · exact Nat.le_refl _

theorem length_setLast (roster : Roster) (level : Level) :
    (roster.setLast level).length = roster.length := by
  rcases List.eq_nil_or_concat roster with rfl | ⟨earlier, last, rfl⟩
  · rfl
  · rw [List.concat_eq_append, setLast_concat]
    simp

/-- The last logger is what decides of a message that goes through it. -/
theorem lets_concat (roster : Roster) (last : Logger) (m : Message) :
    lets (roster ++ [last]) roster.length m
      = (decide (m.required.rank ≤ last.level.rank) && last.start != .silent) := by
  simp [lets]

/-- Nothing shows of what is handed to a logger that has not been
started. -/
theorem shown_of_length_le (h : roster.length ≤ id) (m : Message) :
    roster.shown id m = [] := by
  simp [shown, lets, List.getElem?_eq_none h]

/-- The log is as the roster says. -/
structure Lists (roster : Roster) (log : Log) : Prop where
  levels : log.levels.toList = roster.map (·.level)
  current : ∀ id, log.current = some id ↔ id + 1 = roster.length
  console : log.console = roster.getLast?.any (·.start != .silent)

theorem lists_new : Lists [] {} where
  levels := rfl
  current id := by simp
  console := rfl

theorem Lists.size_eq (h : Lists roster log) : log.levels.size = roster.length := by
  have hlength := congrArg List.length h.levels
  simpa using hlength

theorem Lists.current_nil (h : Lists [] log) : log.current = none := by
  cases hcurrent : log.current with
  | none => rfl
  | some id => exact absurd ((h.current id).1 hcurrent) (Nat.succ_ne_zero id)

theorem Lists.current_concat {last : Logger} (h : Lists (roster ++ [last]) log) :
    log.current = some roster.length :=
  (h.current _).2 (by simp)

/-- What shows on the console is what the roster says. -/
theorem Lists.shown_eq (h : Lists roster log) (hid : id < roster.length)
    (m : Message) : log.shown id m = roster.shown id m := by
  have hlevel : log.level id = roster[id].level := by
    have hget : log.levels.toList[id]? = some roster[id].level := by
      rw [h.levels, List.getElem?_map, List.getElem?_eq_getElem hid]
      rfl
    rw [Log.level, Array.getD_eq_getD_getElem?, ← Array.getElem?_toList, hget]
    rfl
  unfold Log.shown shown lets
  rw [hlevel, h.console, List.getElem?_eq_getElem hid]
  simp

-- ============================================================= starting

theorem Lists.configure (h : Lists roster log) (level : Level)
    (destination : Option Destination) :
    Lists (roster ++ [.started level]) (log.configure level destination) where
  levels := by
    rw [Log.levels_configure, Array.toList_push, h.levels, List.map_append]
    rfl
  current id := by
    rw [Log.current_configure, h.size_eq, List.length_append,
      List.length_singleton, Option.some.injEq, Nat.add_right_cancel_iff]
    exact eq_comm
  console := by
    rw [Log.console_configure, List.getLast?_concat]
    rfl

/-- Asking for the current logger gives the last of the roster. -/
theorem Lists.logger (h : Lists roster log) :
    Lists (roster.ensure .moderate) log.logger.1
      ∧ log.logger.2 + 1 = (roster.ensure .moderate).length
      ∧ log.logger.1.printed = log.printed := by
  rcases List.eq_nil_or_concat roster with rfl | ⟨earlier, last, rfl⟩
  · rw [Log.logger_of_none h.current_nil, h.size_eq]
    exact ⟨h.configure .moderate none, rfl, log.printed_configure .moderate none⟩
  · rw [List.concat_eq_append] at h ⊢
    rw [Log.logger_of_current h.current_concat, ensure_concat]
    exact ⟨h, by simp, rfl⟩

theorem Lists.setLevel (h : Lists roster log) (level : Level) :
    Lists ((roster.ensure level).setLast level) (log.setLevel level)
      ∧ (log.setLevel level).printed = log.printed := by
  rcases List.eq_nil_or_concat roster with rfl | ⟨earlier, last, rfl⟩
  · rw [Log.setLevel_of_none h.current_nil]
    exact ⟨h.configure level none, log.printed_configure level none⟩
  · rw [List.concat_eq_append] at h ⊢
    rw [Log.setLevel_of_current h.current_concat, ensure_concat, setLast_concat]
    refine ⟨⟨?_, ?_, ?_⟩, rfl⟩
    · have hlevels := h.levels
      simp only [Array.toList_setIfInBounds, hlevels]
      simp
    · intro id
      rw [h.current id]
      simp
    · rw [h.console]
      simp

-- =============================================================== saying

theorem Lists.say (h : Lists roster log) (id : LoggerId) (m : Message) :
    Lists roster (log.say id m) where
  levels := by rw [Log.levels_say, h.levels]
  current id' := by rw [Log.current_say, h.current]
  console := by rw [Log.console_say, h.console]

/-- What is handed to the current logger goes through the last of the
roster. -/
theorem Lists.tell (h : Lists roster log) (m : Message) :
    let roster' := roster.ensure .moderate
    Lists roster' (log.tell m)
      ∧ (log.tell m).printed
        = log.printed ++ roster'.shown (roster'.length - 1) m := by
  intro roster'
  obtain ⟨hlists, hlast, hprinted⟩ := h.logger
  have hid : log.logger.2 < roster'.length := by
    rw [← hlast]
    exact Nat.lt_succ_self _
  have hlast' : roster'.length - 1 = log.logger.2 := by
    rw [← hlast, Nat.add_sub_cancel]
  refine ⟨hlists.say _ m, ?_⟩
  show (log.logger.1.say log.logger.2 m).printed = _
  rw [Log.printed_say, hprinted, hlists.shown_eq hid, hlast']

/-- The last logger alone decides of what is handed to the current one. -/
theorem Lists.printed_tell {last : Logger} (h : Lists (roster ++ [last]) log)
    (m : Message) :
    (log.tell m).printed
      = log.printed ++ if m.required.rank ≤ last.level.rank ∧ last.start ≠ .silent
          then [m.record] else [] := by
  have hprinted := (h.tell m).2
  rw [ensure_concat, List.length_append, List.length_singleton,
    Nat.add_sub_cancel, shown, lets_concat] at hprinted
  simpa using hprinted

end Roster

end Formula
