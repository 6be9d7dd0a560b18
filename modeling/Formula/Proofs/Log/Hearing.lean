/-
Who is heard.  Loggers are started, their levels are set, messages are
handed to the current logger or to an older one that somebody still has,
and workers are taken on, each with the logger that is current then, and
build formulas.  All of them write to the same sinks.

A `Ledger` is what these errands tell by themselves: the roster of the
loggers, and the logger that each worker keeps.  `heard` says which record
an errand adds to the console, and that is one record or none.  The
workshop keeps in step with the ledger through every errand
(`Ledger.Keeps.errand`), so all that the console ever shows is what is
heard of the errands, one after another (`printed_eq_heard`).

# Setting a level

A level can be set in two ways, by starting a logger at it or by changing
the level of the current one.  They do not come to the same: a console
that a silent start left without a sink stays so, and one that has a sink
keeps it (`setLevel_agrees_iff`).
-/
import Formula.Proofs.Log.Roster
import Formula.Proofs.Workshop
import Mathlib.Data.List.Induction

namespace Formula

/-- Something to do with the log. -/
inductive Errand where
  | configure (level : Level) (destination : Option Destination)
  | setLevel (level : Level)
  /-- Asks for the current logger. -/
  | logger
  /-- Hands a message to the current logger. -/
  | tell (m : Message)
  /-- Hands a message to any logger. -/
  | say (id : LoggerId) (m : Message)
  /-- Takes on a worker, or calls one. -/
  | work (deed : Deed)

-- ============================================================= the ledger

/-- What the errands tell: the loggers, and which of them each worker
keeps. -/
structure Ledger where
  loggers : Roster := []
  kept : List LoggerId := []

namespace Ledger

/-- The ledger after one more errand. -/
def enter (l : Ledger) : Errand → Ledger
  | .configure level _ => { l with loggers := l.loggers ++ [.started level] }
  | .setLevel level =>
      { l with loggers := (l.loggers.ensure level).setLast level }
  | .logger | .tell _ => { l with loggers := l.loggers.ensure .moderate }
  | .work .hire =>
      let loggers := l.loggers.ensure .moderate
      { loggers, kept := l.kept ++ [loggers.length - 1] }
  | .say _ _ | .work (.call _ _) => l

/-- The ledger of some errands. -/
def of (errands : List Errand) : Ledger := errands.foldl enter {}

theorem of_concat (errands : List Errand) (e : Errand) :
    of (errands ++ [e]) = (of errands).enter e :=
  List.foldl_concat ..

end Ledger

/-- What a builder has to tell of a call: how an operator that is taken
found its place. -/
def Builder.noted? (g : Graph) (b : Builder) : Call → Option Message
  | .add token =>
      match b.add g token with
      | .ok (_, _, some splice) => some (.debug splice.message)
      | _ => none
  | .build => none

/-- A call at a desk tells the worker's logger what there is to tell, and
leaves the worker its logger. -/
theorem Desk.Grown.call_log {d : Desk} {p : Plan} (hd : d.Grown p) (c : Call) :
    (d.call c).2.log
        = ((d.worker.builder.noted? d.graph c).elim d.log fun m =>
          d.log.say d.worker.logger m)
      ∧ (d.call c).2.worker.logger = d.worker.logger := by
  cases c with
  | add token =>
      cases hadd : d.worker.builder.add d.graph token with
      | error e =>
          rw [hd.call_add_error hadd, Builder.noted?, hadd]
          exact ⟨rfl, rfl⟩
      | ok r =>
          obtain ⟨g, b, splice⟩ := r
          rw [Desk.call_add hadd, Builder.noted?, hadd]
          cases splice with
          | none => exact ⟨rfl, rfl⟩
          | some splice => exact ⟨rfl, rfl⟩
  | build =>
      cases hbuild : d.worker.builder.build d.graph with
      | error e =>
          rw [Desk.call_build_error hbuild]
          exact ⟨rfl, rfl⟩
      | ok r =>
          rw [Desk.call_build hbuild]
          exact ⟨rfl, rfl⟩

namespace Workshop

/-- Does an errand.  There is no way to hand a message to a logger that
has not been started. -/
def errand (w : Workshop) : Errand → Workshop
  | .configure level destination =>
      { w with log := w.log.configure level destination }
  | .setLevel level => { w with log := w.log.setLevel level }
  | .logger => { w with log := w.log.logger.1 }
  | .tell m => { w with log := w.log.tell m }
  | .say id m =>
      if id < w.log.levels.size then { w with log := w.log.say id m } else w
  | .work deed => (w.deed deed).2

/-- A new workshop with its errands done, around a graph. -/
def opened (g : Graph) (errands : List Errand) : Workshop :=
  errands.foldl errand { graph := g }

/-- The message that an errand hands over, and the logger that it goes
through. -/
def voice? (w : Workshop) (l : Ledger) : Errand → Option (LoggerId × Message)
  | .tell m => some (l.loggers.length - 1, m)
  | .say id m => some (id, m)
  | .work (.call id c) =>
      match l.kept[id]?, (w.builder id).noted? w.graph c with
      | some logger, some m => some (logger, m)
      | _, _ => none
  | _ => none

/-- What shows on the console of an errand, with the ledger after it. -/
def shows (w : Workshop) (l : Ledger) (e : Errand) : List Record :=
  match w.voice? l e with
  | some (id, m) => l.loggers.shown id m
  | none => []

variable {w : Workshop} {plans : Nat → Plan}

-- ============================================================ one errand

theorem deed_call_none {id : Nat} (h : w.workers[id]? = none) (c : Call) :
    (w.deed (.call id c)).2 = w := by
  simp only [deed, h]

/-- Calling a worker lets it tell its logger what there is to tell. -/
theorem Apart.deed_call_log (hw : w.Apart plans) {id : Nat} {worker : Worker}
    (h : w.workers[id]? = some worker) (c : Call) :
    (w.deed (.call id c)).2.log
        = (((w.builder id).noted? w.graph c).elim w.log fun m =>
          w.log.say worker.logger m)
      ∧ (w.deed (.call id c)).2.workers.toList.map (·.logger)
        = w.workers.toList.map (·.logger) := by
  have hb : w.builder id = worker.builder := by
    simp only [builder, h, Option.elim_some]
  have hd : Desk.Grown ⟨w.graph, w.log, worker⟩ (plans id) := by
    have hgrown := hw.grown id
    rw [hb] at hgrown
    exact hgrown
  obtain ⟨hlog, hlogger⟩ := hd.call_log c
  have hdeed : (w.deed (.call id c)).2 = (w.employ id worker c.work).2 := by
    simp only [Workshop.deed, h]
  rw [hdeed, hb]
  refine ⟨hlog, ?_⟩
  obtain ⟨hid, hworker⟩ := Array.getElem?_eq_some_iff.1 h
  have hlt : id < (w.workers.toList.map (·.logger)).length := by simpa using hid
  have hget : worker.logger = (w.workers.toList.map (·.logger))[id] := by
    simp [hworker]
  show (w.workers.setIfInBounds id
    (Desk.call ⟨w.graph, w.log, worker⟩ c).2.worker).toList.map (·.logger) = _
  rw [Array.toList_setIfInBounds, List.map_set, hlogger]
  dsimp only
  rw [hget, List.set_getElem_self]

/-- The workers stay apart, whatever the errand. -/
theorem Apart.errand (hw : w.Apart plans) (e : Errand) :
    ∃ plans', (w.errand e).Apart plans' := by
  cases e with
  | configure | setLevel | logger | tell =>
      exact ⟨plans, hw.grown, hw.disjoint⟩
  | say id m =>
      rw [Workshop.errand]
      split
      · exact ⟨plans, hw.grown, hw.disjoint⟩
      · exact ⟨plans, hw⟩
  | work deed => exact hw.deed deed

theorem opened_concat (g : Graph) (errands : List Errand) (e : Errand) :
    opened g (errands ++ [e]) = (opened g errands).errand e :=
  List.foldl_concat ..

theorem exists_apart_opened (g : Graph) (errands : List Errand) :
    ∃ plans, (opened g errands).Apart plans := by
  induction errands using List.reverseRecOn with
  | nil => exact ⟨_, apart_new g {}⟩
  | append_singleton errands e ih =>
      obtain ⟨plans, hw⟩ := ih
      rw [opened_concat]
      exact hw.errand e

end Workshop

-- ================================================================ in step

namespace Ledger

/-- The workshop is as the ledger says. -/
structure Keeps (l : Ledger) (w : Workshop) : Prop where
  lists : l.loggers.Lists w.log
  kept : w.workers.toList.map (·.logger) = l.kept
  known : ∀ id ∈ l.kept, id < l.loggers.length

variable {l : Ledger} {w : Workshop} {plans : Nat → Plan}

/-- The workers' loggers stay known as more are started. -/
theorem Keeps.known_of_le (h : l.Keeps w) {loggers : Roster}
    (hle : l.loggers.length ≤ loggers.length) :
    ∀ id ∈ l.kept, id < loggers.length :=
  fun id hid => (h.known id hid).trans_le hle

theorem keeps_new (g : Graph) : Keeps {} { graph := g } where
  lists := Roster.lists_new
  kept := rfl
  known := nofun

/-- A worker that is called keeps the ledger right, and what it has to
tell is heard as its logger lets it be. -/
theorem Keeps.call (h : l.Keeps w) (hw : w.Apart plans) (id : Nat) (c : Call) :
    l.Keeps (w.deed (.call id c)).2
      ∧ (w.deed (.call id c)).2.log.printed
        = w.log.printed ++ w.shows l (.work (.call id c)) := by
  have hkept : l.kept[id]? = w.workers[id]?.map (·.logger) := by
    rw [← h.kept, List.getElem?_map, Array.getElem?_toList]
  rw [Workshop.shows, Workshop.voice?, hkept]
  cases hworker : w.workers[id]? with
  | none =>
      rw [Workshop.deed_call_none hworker]
      exact ⟨h, (List.append_nil _).symm⟩
  | some worker =>
      obtain ⟨hlog, hloggers⟩ := hw.deed_call_log hworker c
      have hid : worker.logger < l.loggers.length :=
        h.known _ (List.mem_of_getElem? (hkept.trans (congrArg _ hworker)))
      rw [Option.map_some]
      cases hnote : (w.builder id).noted? w.graph c with
      | none =>
          rw [hnote] at hlog
          refine ⟨⟨?_, hloggers.trans h.kept, h.known⟩, ?_⟩
          · rw [hlog]
            exact h.lists
          · rw [hlog]
            exact (List.append_nil _).symm
      | some m =>
          rw [hnote] at hlog
          refine ⟨⟨?_, hloggers.trans h.kept, h.known⟩, ?_⟩
          · rw [hlog]
            exact h.lists.say worker.logger m
          · rw [hlog]
            show (w.log.say worker.logger m).printed = _
            rw [Log.printed_say, h.lists.shown_eq hid]

/-- A worker that is taken on keeps the current logger. -/
theorem Keeps.hire (h : l.Keeps w) :
    (l.enter (.work .hire)).Keeps (w.deed .hire).2
      ∧ (w.deed .hire).2.log.printed = w.log.printed := by
  obtain ⟨hlists, hlast, hprinted⟩ := h.lists.logger
  have hid : (l.loggers.ensure .moderate).length - 1 = w.log.logger.2 := by
    rw [← hlast, Nat.add_sub_cancel]
  refine ⟨⟨hlists, ?_, ?_⟩, hprinted⟩
  · show (w.workers.push _).toList.map (·.logger) = l.kept ++ [_]
    rw [Array.toList_push, List.map_append, h.kept, hid]
    rfl
  · intro id hmem
    rcases List.mem_append.1 hmem with hmem | hmem
    · exact h.known_of_le (Roster.length_le_ensure ..) id hmem
    · rw [List.mem_singleton.1 hmem, hid, ← Nat.succ_le_iff]
      exact hlast.le

/-- Every errand keeps the ledger right, and shows what is heard of it. -/
theorem Keeps.errand (h : l.Keeps w) (hw : w.Apart plans) (e : Errand) :
    (l.enter e).Keeps (w.errand e)
      ∧ (w.errand e).log.printed
        = w.log.printed ++ w.shows (l.enter e) e := by
  cases e with
  | configure level destination =>
      refine ⟨⟨h.lists.configure level destination, h.kept,
        h.known_of_le (by simp [enter])⟩, ?_⟩
      exact (w.log.printed_configure level destination).trans
        (List.append_nil _).symm
  | setLevel level =>
      obtain ⟨hlists, hprinted⟩ := h.lists.setLevel level
      refine ⟨⟨hlists, h.kept, h.known_of_le ?_⟩,
        hprinted.trans (List.append_nil _).symm⟩
      show l.loggers.length ≤ ((l.loggers.ensure level).setLast level).length
      rw [Roster.length_setLast]
      exact Roster.length_le_ensure ..
  | logger =>
      obtain ⟨hlists, -, hprinted⟩ := h.lists.logger
      exact ⟨⟨hlists, h.kept, h.known_of_le (Roster.length_le_ensure ..)⟩,
        hprinted.trans (List.append_nil _).symm⟩
  | tell m =>
      obtain ⟨hlists, hprinted⟩ := h.lists.tell m
      exact ⟨⟨hlists, h.kept, h.known_of_le (Roster.length_le_ensure ..)⟩,
        hprinted⟩
  | say id m =>
      rw [Workshop.errand, h.lists.size_eq, Workshop.shows, Workshop.voice?]
      split
      · next hid =>
        refine ⟨⟨h.lists.say id m, h.kept, h.known⟩, ?_⟩
        exact (w.log.printed_say id m).trans
          (congrArg _ (h.lists.shown_eq hid m))
      · next hid =>
        -- nobody has a logger that has not been started
        refine ⟨h, ?_⟩
        show _ = w.log.printed ++ l.loggers.shown id m
        rw [Roster.shown_of_length_le (Nat.le_of_not_lt hid), List.append_nil]
  | work deed =>
      cases deed with
      | hire =>
          obtain ⟨hkeeps, hprinted⟩ := h.hire
          exact ⟨hkeeps, hprinted.trans (List.append_nil _).symm⟩
      | call id c => exact h.call hw id c

theorem keeps_opened (g : Graph) (errands : List Errand) :
    (of errands).Keeps (Workshop.opened g errands) := by
  induction errands using List.reverseRecOn with
  | nil => exact keeps_new g
  | append_singleton errands e ih =>
      obtain ⟨plans, hw⟩ := Workshop.exists_apart_opened g errands
      rw [of_concat, Workshop.opened_concat]
      exact (ih.errand hw e).1

end Ledger

/-- What is heard of an errand after others. -/
def heard (g : Graph) (before : List Errand) (e : Errand) : List Record :=
  (Workshop.opened g before).shows (Ledger.of (before ++ [e])) e

theorem printed_opened_concat (g : Graph) (errands : List Errand) (e : Errand) :
    (Workshop.opened g (errands ++ [e])).log.printed
      = (Workshop.opened g errands).log.printed ++ heard g errands e := by
  obtain ⟨plans, hw⟩ := Workshop.exists_apart_opened g errands
  rw [Workshop.opened_concat, heard, Ledger.of_concat]
  exact ((Ledger.keeps_opened g errands).errand hw e).2

/-- What the console shows is heard of one errand after another. -/
theorem printed_opened (g : Graph) (errands : List Errand) :
    (Workshop.opened g errands).log.printed
      = errands.zipIdx.flatMap fun (e, i) => heard g (errands.take i) e := by
  induction errands using List.reverseRecOn with
  | nil => rfl
  | append_singleton errands e ih =>
      have hearlier : errands.zipIdx.flatMap
            (fun (e', i) => heard g ((errands ++ [e]).take i) e')
          = errands.zipIdx.flatMap fun (e', i) => heard g (errands.take i) e' := by
        refine List.flatMap_congr fun ⟨e', i⟩ hmem => ?_
        have hi : i < errands.length := by
          simpa using (List.mem_zipIdx hmem).2.1
        show heard g ((errands ++ [e]).take i) e' = _
        rw [List.take_append_of_le_length hi.le]
      rw [printed_opened_concat, ih, List.zipIdx_append, List.flatMap_append,
        hearlier]
      simp

/-- The console shows what is heard of the errands, each in its turn, and
nothing else: of a message one record, if the level of the logger that it
goes through lets it and the logger that was started last was not started
silent, and of all else none.  The levels, and the loggers that the
workers keep, are those of the ledger. -/
theorem printed_eq_heard (g : Graph) (errands : List Errand) :
    let w := Workshop.opened g errands
    let ledger := Ledger.of errands
    w.log.printed
        = errands.zipIdx.flatMap (fun (e, i) => heard g (errands.take i) e)
      ∧ w.log.levels.toList = ledger.loggers.map (·.level)
      ∧ w.workers.toList.map (·.logger) = ledger.kept := by
  intro w ledger
  have hkeeps := Ledger.keeps_opened g errands
  exact ⟨printed_opened g errands, hkeeps.lists.levels, hkeeps.kept⟩

/-- A logger is heard at its own level, however quiet the last one is, but
not after a silent start. -/
example :
    (Workshop.opened .empty [.configure .verbose none, .configure .minimal none,
      .say 0 (.debug "a"), .configure .silent none, .say 0 (.debug "b")]).log.printed
      = [(Message.debug "a").record] := by
  decide

-- ======================================================== setting a level

theorem Roster.Lists.setLevel_shows_iff {roster : Roster} {log : Log}
    (h : roster.Lists log) (level : Level) (destination : Option Destination)
    (m : Message) :
    ((log.setLevel level).tell m).printed
        = ((log.configure level destination).tell m).printed
      ↔ (m.required.rank ≤ level.rank →
          ∀ current, roster.getLast? = some current →
            (current.start = .silent ↔ level = .silent)) := by
  have hstarted := (h.configure level destination).printed_tell m
  rw [log.printed_configure] at hstarted
  obtain ⟨hset, hprinted⟩ := h.setLevel level
  rcases List.eq_nil_or_concat roster with rfl | ⟨earlier, last, rfl⟩
  · -- setting the level has started the first logger
    have hset : Lists ([] ++ [.started level]) (log.setLevel level) := hset
    rw [hset.printed_tell, hprinted, hstarted]
    exact iff_of_true rfl fun _ _ hlast => nomatch hlast
  · rw [List.concat_eq_append, ensure_concat, setLast_concat] at hset
    rw [hset.printed_tell, hprinted, hstarted, List.concat_eq_append]
    by_cases hlevel : m.required.rank ≤ level.rank
    · by_cases hstart : last.start = .silent <;> by_cases hsilent : level = .silent
        <;> simp [Logger.started, hlevel, hstart, hsilent]
    · simp [Logger.started, hlevel]

/-- Setting the level and starting a logger at it come to the same for a
message that the level lets through just if the current logger, where
there is one, was started silent when the level is silent, and not
otherwise.  A message that the level does not let through shows in neither
case. -/
theorem setLevel_agrees_iff (g : Graph) (errands : List Errand) (level : Level)
    (destination : Option Destination) (m : Message) :
    let log := (Workshop.opened g errands).log
    ((log.setLevel level).tell m).printed
        = ((log.configure level destination).tell m).printed
      ↔ (m.required.rank ≤ level.rank →
          ∀ current, (Ledger.of errands).loggers.getLast? = some current →
            (current.start = .silent ↔ level = .silent)) :=
  (Ledger.keeps_opened g errands).lists.setLevel_shows_iff level destination m

/-- A level that is set after a silent start shows nothing. -/
theorem setLevel_after_silent :
    let log := (Workshop.opened .empty [.configure .silent none]).log
    let m := Message.warning "w"
    ((log.setLevel .verbose).tell m).printed = []
      ∧ ((log.configure .verbose none).tell m).printed = [m.record] := by
  decide

end Formula
