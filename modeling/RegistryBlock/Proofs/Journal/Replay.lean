import RegistryBlock.Journal.Logbook
import RegistryBlock.Proofs.Basic
import Mathlib.Data.List.Basic
import Mathlib.Data.List.Induction

/-!
# Setups and records in any order

A program may set its log up again and again and write records in between. Whatever handlers the
logbook had, a setup leaves its own ones alone, and these are the only ones that the records after
it reach. So each record is shown once on the console and once in the file, if the last setup before
it says so: from rank 10 on if this setup is verbose, and else from rank 20 on.
-/

namespace RegistryBlock.Journal

inductive Event where
  | configure (setup : Setup)
  | record (time : String) (r : Record)
deriving DecidableEq, Repr

def Event.setup? : Event → Option Setup
  | configure setup => some setup
  | record _ _ => none

/-- The last setup among some events, or else the one before them. -/
def inForce (setup : Setup) (events : List Event) : Setup :=
  (events.filterMap Event.setup?).getLast?.getD setup

/-- A record with its time and with the setup in force when it comes. -/
structure Entry where
  setup : Setup
  time : String
  record : Record
deriving DecidableEq, Repr

/-- The word for a rank. Six ranks have one of their own. -/
def rankWord (rank : Int) : String :=
  if rank = 0 then "NOTSET"
  else if rank = 10 then "DEBUG"
  else if rank = 20 then "INFO"
  else if rank = 30 then "WARNING"
  else if rank = 40 then "ERROR"
  else if rank = 50 then "CRITICAL"
  else "Level " ++ toString rank

theorem Level.name_eq_rankWord (level : Level) : level.name = rankWord level.rank := by
  obtain ⟨rank⟩ := level
  have hword (known : Int) (word other : String) (rest : Option String) :
      (if rank = known then some word else rest).getD other =
        if rank = known then word else rest.getD other := by
    split <;> rfl
  simp only [name, named, debug, info, warning, error, critical, lookup_cons_eq_ite,
    List.lookup_nil, Level.mk.injEq, hword, Option.getD_none, rankWord]

namespace Entry

/-- The part of the program that wrote the record, if it is not the program as a whole. -/
def area? (e : Entry) : Option String := e.record.area.filter (· ≠ "")

def isShown (e : Entry) : Bool := e.setup.threshold.rank ≤ e.record.level.rank

theorem isShown_eq (e : Entry) :
    e.isShown = decide ((if e.setup.verbose then 10 else 20) ≤ e.record.level.rank) := by
  rw [isShown, Setup.threshold]
  cases e.setup.verbose <;> rfl

theorem line_form (e : Entry) : e.record.line e.time e.setup.form =
    (if e.setup.verbose then "blockgen[" ++ e.area?.getD "blockgen" ++ "]: " else "blockgen: ") ++
      rankWord e.record.level.rank ++ ": " ++ e.record.message ++ "\n" := by
  rw [← Level.name_eq_rankWord, Setup.form]
  cases e.setup.verbose <;> rfl

theorem line_dated (e : Entry) : e.record.line e.time .dated =
    e.time ++ " " ++ rankWord e.record.level.rank ++ " " ++
      e.area?.elim "blockgen" ("blockgen." ++ ·) ++ ": " ++ e.record.message ++ "\n" := by
  rw [← Level.name_eq_rankWord, Record.line, Record.fullPlace, area?]
  cases e.record.area.filter (· ≠ "") <;> rfl

def at? (setup : Setup) (events : List Event) (i : Nat) : Option Entry :=
  match events[i]? with
  | some (.record time r) => some ⟨inForce setup (events.take i), time, r⟩
  | _ => none

end Entry

def entries (setup : Setup) (events : List Event) : List Entry :=
  (List.range events.length).filterMap (Entry.at? setup events)

theorem inForce_concat (setup : Setup) (events : List Event) (event : Event) :
    inForce setup (events ++ [event]) = event.setup?.getD (inForce setup events) := by
  rw [inForce, inForce, List.filterMap_append]
  cases event <;> simp [Event.setup?]

theorem entries_concat (setup : Setup) (events : List Event) (event : Event) :
    entries setup (events ++ [event]) = entries setup events ++
      match event with
      | .configure _ => []
      | .record time r => [⟨inForce setup events, time, r⟩] := by
  have hbefore : (List.range events.length).filterMap (Entry.at? setup (events ++ [event])) =
      entries setup events := by
    refine List.filterMap_congr fun i hi => ?_
    have hlt : i < events.length := List.mem_range.1 hi
    rw [Entry.at?, Entry.at?, List.getElem?_append_left hlt,
      List.take_append_of_le_length (Nat.le_of_lt hlt)]
  have hlast : (events ++ [event]).take events.length = events := List.take_left
  rw [entries, List.length_append, List.length_singleton, List.range_succ, List.filterMap_append,
    hbefore]
  congr 1
  cases event <;> simp [Entry.at?, hlast]

namespace Logbook

def step (book : Logbook) : Event → Logbook
  | .configure setup => book.configure setup
  | .record time r => book.log time r

def replay (book : Logbook) (events : List Event) : Logbook := events.foldl step book

def textAt (book : Logbook) : Target → String
  | .console => book.console
  | .file name => (book.file? name).getD ""

variable {book : Logbook} {threshold : Level} {handlers : List Handler} {setup : Setup}

/-! ### Writing -/

theorem lookup_addTo (name text other : String) (files : List (String × String)) :
    (addTo name text files).lookup other =
      if other = name then some ((files.lookup name).getD "" ++ text) else files.lookup other := by
  induction files with
  | nil => rw [addTo, lookup_cons_eq_ite, List.lookup_nil, List.lookup_nil, Option.getD_none,
      String.empty_append]
  | cons entry files ih =>
    obtain ⟨first, old⟩ := entry
    rw [addTo]
    by_cases hfirst : first = name
    · subst hfirst
      rw [if_pos rfl, lookup_cons_eq_ite, lookup_cons_eq_ite, lookup_cons_eq_ite, if_pos rfl,
        Option.getD_some]
      split <;> rfl
    · rw [if_neg hfirst, lookup_cons_eq_ite, lookup_cons_eq_ite, lookup_cons_eq_ite, ih,
        if_neg (Ne.symm hfirst)]
      by_cases hother : other = first
      · rw [if_pos hother, if_pos hother, if_neg (by rwa [hother])]
      · rw [if_neg hother, if_neg hother]

theorem textAt_write (book : Logbook) (text : String) (target place : Target) :
    (book.write text target).textAt place =
      book.textAt place ++ if target = place then text else "" := by
  cases target with
  | console => cases place <;> simp [write, textAt, file?]
  | file name =>
    cases place with
    | console => simp [write, textAt]
    | file other =>
      simp only [write, textAt, file?, lookup_addTo, Target.file.injEq]
      by_cases h : other = name
      · simp [h]
      · simp [h, Ne.symm h]

def lineFrom (time : String) (r : Record) (place : Target) (h : Handler) : String :=
  if h.target = place ∧ h.threshold.rank ≤ r.level.rank then r.line time h.form else ""

theorem textAt_foldl_handle (book : Logbook) (time : String) (r : Record) (place : Target)
    (l : List Handler) : (l.foldl (fun b h => b.handle time r h) book).textAt place =
      book.textAt place ++ String.join (l.map (lineFrom time r place)) := by
  induction l generalizing book with
  | nil => simp
  | cons h l ih =>
    have hhandle : (book.handle time r h).textAt place =
        book.textAt place ++ lineFrom time r place h := by
      rw [handle, lineFrom]
      split
      · next hlevel => simp [textAt_write, hlevel]
      · next hlevel => simp [hlevel]
    rw [List.foldl_cons, ih, hhandle, List.map_cons, String.join_cons, String.append_assoc]

/-! ### Setups -/

/-- The logbook gives records from the threshold on to the handlers, and to nobody else. -/
structure IsSetTo (book : Logbook) (threshold : Level) (handlers : List Handler) : Prop where
  threshold_eq : book.threshold = threshold
  handlers_eq : book.handlers = handlers
  passesOn_eq : book.passesOn = false

namespace IsSetTo

theorem write (h : book.IsSetTo threshold handlers) (text : String) (target : Target) :
    (book.write text target).IsSetTo threshold handlers := by
  cases target <;> exact ⟨h.threshold_eq, h.handlers_eq, h.passesOn_eq⟩

theorem add (h : book.IsSetTo threshold handlers) (handler : Handler) :
    (book.add handler).IsSetTo threshold (handlers ++ [handler]) where
  threshold_eq := (h.write "" handler.target).threshold_eq
  handlers_eq := congrArg (· ++ [handler]) h.handlers_eq
  passesOn_eq := (h.write "" handler.target).passesOn_eq

theorem foldl_add (h : book.IsSetTo threshold handlers) (l : List Handler) :
    (l.foldl Logbook.add book).IsSetTo threshold (handlers ++ l) := by
  induction l generalizing book handlers with
  | nil => rwa [List.append_nil]
  | cons handler l ih =>
    rw [List.append_cons]
    exact ih (h.add handler)

theorem foldl_handle (h : book.IsSetTo threshold handlers) (time : String) (r : Record)
    (l : List Handler) :
    (l.foldl (fun b h => b.handle time r h) book).IsSetTo threshold handlers := by
  induction l generalizing book with
  | nil => exact h
  | cons handler l ih =>
    rw [List.foldl_cons]
    apply ih
    unfold handle
    split
    · exact h.write _ _
    · exact h

theorem log (h : book.IsSetTo threshold handlers) (time : String) (r : Record) :
    (book.log time r).IsSetTo threshold handlers := by
  unfold Logbook.log
  split
  · exact h.foldl_handle time r _
  · exact h

end IsSetTo

/-- All handlers are taken away. -/
theorem foldl_remove {l : List Handler} (h : book.handlers = l) :
    l.foldl remove book = { book with handlers := [] } := by
  induction l generalizing book with
  | nil => rw [List.foldl_nil, ← h]
  | cons handler l ih =>
    have hrest : (book.remove handler).handlers = l := by rw [remove, h, List.erase_cons_head]
    exact ih hrest

/-- A setup takes the place of whatever there was. -/
theorem isSetTo_configure (book : Logbook) (setup : Setup) :
    (book.configure setup).IsSetTo setup.threshold setup.handlers := by
  rw [configure, foldl_remove rfl]
  exact IsSetTo.foldl_add ⟨rfl, rfl, rfl⟩ setup.handlers

/-- What was written stays. -/
theorem textAt_configure (book : Logbook) (setup : Setup) (place : Target) :
    (book.configure setup).textAt place = book.textAt place := by
  have hadd (book : Logbook) (l : List Handler) :
      (l.foldl add book).textAt place = book.textAt place := by
    induction l generalizing book with
    | nil => rfl
    | cons h l ih =>
      have hwrite := textAt_write book "" h.target place
      rw [ite_self, String.append_empty] at hwrite
      exact (ih (book.add h)).trans hwrite
  rw [configure, foldl_remove rfl, hadd]
  rfl

/-! ### Records -/

theorem join_eq_empty {l : List String} (h : ∀ s ∈ l, s = "") : String.join l = "" := by
  induction l with
  | nil => rfl
  | cons s l ih =>
    rw [List.forall_mem_cons] at h
    rw [String.join_cons, h.1, ih h.2, String.append_empty]

def lineAt (e : Entry) (place : Target) : String :=
  String.join (e.setup.handlers.map (lineFrom e.time e.record place))

theorem lineAt_of_not_isShown {e : Entry} (h : e.isShown = false) (place : Target) :
    lineAt e place = "" := by
  have hlevel : ¬ e.setup.threshold.rank ≤ e.record.level.rank := of_decide_eq_false h
  refine join_eq_empty (List.forall_mem_map.2 fun handler hhandler => if_neg fun hshown => ?_)
  have hthreshold : handler.threshold = e.setup.threshold := by
    rcases List.mem_cons.1 hhandler with rfl | hfile
    · rfl
    · rw [Option.mem_toList, Option.map_eq_some_iff] at hfile
      obtain ⟨name, -, rfl⟩ := hfile
      rfl
  rw [hthreshold] at hshown
  exact hlevel hshown.2

theorem lineAt_console (e : Entry) :
    lineAt e .console = if e.isShown then e.record.line e.time e.setup.form else "" := by
  by_cases h : e.isShown = true
  · have hlevel : e.setup.threshold.rank ≤ e.record.level.rank := of_decide_eq_true h
    rw [if_pos h, lineAt, Setup.handlers]
    cases e.setup.file <;> simp [lineFrom, hlevel]
  · rw [if_neg h, lineAt_of_not_isShown (eq_false_of_ne_true h)]

theorem lineAt_file (e : Entry) (name : String) :
    lineAt e (.file name) =
      if e.setup.file = some name ∧ e.isShown then e.record.line e.time .dated else "" := by
  by_cases h : e.isShown = true
  · have hlevel : e.setup.threshold.rank ≤ e.record.level.rank := of_decide_eq_true h
    rw [lineAt, Setup.handlers]
    cases e.setup.file <;> simp [lineFrom, hlevel, h]
  · rw [if_neg (fun hboth => h hboth.2), lineAt_of_not_isShown (eq_false_of_ne_true h)]

/-- A record reaches the handlers of the setup, and them alone. -/
theorem IsSetTo.textAt_log (h : book.IsSetTo setup.threshold setup.handlers) (time : String)
    (r : Record) (place : Target) :
    (book.log time r).textAt place = book.textAt place ++ lineAt ⟨setup, time, r⟩ place := by
  unfold Logbook.log
  rw [h.threshold_eq]
  split
  · have hreceivers : book.receivers = setup.handlers := by
      simp [receivers, h.passesOn_eq, h.handlers_eq, Setup.handlers]
    rw [hreceivers, textAt_foldl_handle, lineAt]
  · next hlevel =>
    have hshown : Entry.isShown ⟨setup, time, r⟩ = false := decide_eq_false hlevel
    rw [lineAt_of_not_isShown hshown, String.append_empty]

/-! ### Runs -/

theorem replay_concat (book : Logbook) (events : List Event) (event : Event) :
    book.replay (events ++ [event]) = (book.replay events).step event :=
  List.foldl_concat step book event events

/-- The logbook is always set to the setup in force. -/
theorem isSetTo_replay (book : Logbook) (setup : Setup) (events : List Event) :
    (book.replay (.configure setup :: events)).IsSetTo (inForce setup events).threshold
      (inForce setup events).handlers := by
  induction events using List.reverseRecOn with
  | nil => exact isSetTo_configure book setup
  | append_singleton events event ih =>
    rw [← List.cons_append, replay_concat, inForce_concat]
    cases event with
    | configure other => exact isSetTo_configure _ other
    | record time r => exact ih.log time r

theorem textAt_replay (book : Logbook) (setup : Setup) (events : List Event) (place : Target) :
    (book.replay (.configure setup :: events)).textAt place =
      book.textAt place ++ String.join ((entries setup events).map (lineAt · place)) := by
  induction events using List.reverseRecOn with
  | nil =>
    rw [show entries setup [] = [] from rfl, List.map_nil, String.join_nil, String.append_empty]
    exact textAt_configure book setup place
  | append_singleton events event ih =>
    rw [← List.cons_append, replay_concat, entries_concat]
    cases event with
    | configure other =>
      rw [List.append_nil, ← ih]
      exact textAt_configure _ other place
    | record time r =>
      rw [List.map_append, String.join_append, ← String.append_assoc, ← ih, List.map_singleton,
        String.join_cons, String.join_nil, String.append_empty]
      exact (isSetTo_replay book setup events).textAt_log time r place

theorem join_map_ite {α : Type} (p : α → Prop) [DecidablePred p] (f : α → String) (l : List α) :
    String.join (l.map fun a => if p a then f a else "") =
      String.join ((l.filter fun a => p a).map f) := by
  induction l with
  | nil => rfl
  | cons a l ih =>
    by_cases h : p a <;> simp [h, ih]

/-- However often the log is set up anew, and whatever handlers there were at first: a record stands
on the console once, in the form of the setup in force, if its level is high enough for this setup,
and else not at all. It stands in a file once, if this is the file of the setup. There is always
one handler for the console and at most one for a file. -/
theorem replay_writes_once (book : Logbook) (setup : Setup) (events : List Event) :
    let after := book.replay (.configure setup :: events)
    let shown := (entries setup events).filter fun e =>
      (if e.setup.verbose then 10 else 20) ≤ e.record.level.rank
    let consoleLine (e : Entry) :=
      (if e.setup.verbose then "blockgen[" ++ e.area?.getD "blockgen" ++ "]: " else "blockgen: ") ++
        rankWord e.record.level.rank ++ ": " ++ e.record.message ++ "\n"
    let fileLine (e : Entry) :=
      e.time ++ " " ++ rankWord e.record.level.rank ++ " " ++
        e.area?.elim "blockgen" ("blockgen." ++ ·) ++ ": " ++ e.record.message ++ "\n"
    after.console = book.console ++ String.join (shown.map consoleLine) ∧
    (∀ name, after.textAt (.file name) = book.textAt (.file name) ++
      String.join ((shown.filter fun e => e.setup.file = some name).map fileLine)) ∧
    after.handlers.countP (fun h => h.target = .console) = 1 ∧
    after.handlers.countP (fun h => h.target ≠ .console) ≤ 1 := by
  intro after shown consoleLine fileLine
  have hshown : shown = (entries setup events).filter Entry.isShown :=
    List.filter_congr fun e _ => (Entry.isShown_eq e).symm
  have hconsole : consoleLine = fun e => e.record.line e.time e.setup.form :=
    funext fun e => (Entry.line_form e).symm
  have hfile : fileLine = fun e => e.record.line e.time .dated :=
    funext fun e => (Entry.line_dated e).symm
  rw [hshown, hconsole, hfile]
  refine ⟨?_, fun name => ?_, ?_⟩
  · have htext := textAt_replay book setup events .console
    simp only [lineAt_console, join_map_ite, Bool.decide_eq_true] at htext
    exact htext
  · have htext := textAt_replay book setup events (.file name)
    simp only [lineAt_file, join_map_ite] at htext
    simpa [List.filter_filter] using htext
  · have hhandlers := (isSetTo_replay book setup events).handlers_eq
    rw [hhandlers, Setup.handlers]
    cases (inForce setup events).file <;> simp

/-- There are two stale handlers at first. The file is set up twice and then no more. -/
theorem replay_writes_once_stale :
    let stale : Handler := ⟨.console, .debug, .bare⟩
    let book : Logbook := { handlers := [stale, stale], console := "before\n" }
    let loud : Setup := { verbose := true, file := some "log" }
    let events : List Event :=
      [.record "t1" ⟨some "scanner", .debug, "a"⟩, .record "t2" ⟨none, .info, "b"⟩,
        .configure loud, .record "t3" ⟨some "git", .debug, "c"⟩,
        .configure loud, .record "t4" ⟨some "git", ⟨35⟩, "d"⟩, .record "t5" ⟨none, ⟨9⟩, "e"⟩,
        .configure {}, .record "t6" ⟨some "git", .debug, "f"⟩, .record "t7" ⟨some "", .error, "g"⟩]
    let after := book.replay (.configure {} :: events)
    after.console = "before\nblockgen: INFO: b\nblockgen[git]: DEBUG: c\n" ++
        "blockgen[git]: Level 35: d\nblockgen: ERROR: g\n" ∧
      after.textAt (.file "log") = "t3 DEBUG blockgen.git: c\nt4 Level 35 blockgen.git: d\n" ∧
      after.handlers.countP (fun h => h.target = .console) = 1 := by
  intro stale book loud events after
  obtain ⟨hconsole, hfile, hhandlers, -⟩ := replay_writes_once book {} events
  exact ⟨hconsole.trans (by decide +kernel), (hfile "log").trans (by decide +kernel), hhandlers⟩

end Logbook

end RegistryBlock.Journal
