import ScriptedNotes.Proofs.Session.Note

/-!
Sessions as sequences of requests. Whoever has a session may run sources and notes in it, and may
keep contexts and run these again and again. What becomes of a context depends on its id and its
script alone, so the requests of a session say from the start which contexts run one after another,
and the whole is a single run of them (`serveAll_eq`). A run of contexts is made of turns, one for
each (`runMany_eq_turns`).
-/

namespace ScriptedNotes

open Run Run.Exec Script

variable {σ : Type} (host : Host σ)

/-! ### Contexts that run again -/

/-- The context before it ever ran. -/
def Context.fresh (c : Context) : Context :=
  { id := c.id, compiled := c.compiled }

namespace Session

variable (s : Session σ)

/-- What a terminal showed before a run makes no difference. -/
lemma contextRun_machine (compiled : Except SyntaxError Compiled) (id : String) (t : Terminal) :
    contextRun host compiled (s.machine id t) = contextRun host compiled (s.machine id {}) :=
  rfl

/-- A context runs as it did the first time. -/
lemma execute_fresh (c : Context) :
    (s.execute host c.fresh).1.report = (s.execute host c).1.report ∧
      (s.execute host c.fresh).2 = (s.execute host c).2 := by
  have hmachine : contextRun host c.fresh.compiled (s.machine c.fresh.id c.fresh.terminal) =
      contextRun host c.compiled (s.machine c.id c.terminal) := rfl
  unfold execute
  rw [hmachine]
  split <;> exact ⟨rfl, rfl⟩

lemma fresh_execute (c : Context) : (s.execute host c).1.fresh = c.fresh := by
  unfold execute
  split <;> rfl

lemma runMany_append (first rest : List Context) :
    s.runMany host (first ++ rest) =
      ((s.runMany host first).1 ++ ((s.runMany host first).2.runMany host rest).1,
        ((s.runMany host first).2.runMany host rest).2) := by
  induction first generalizing s with
  | nil => rfl
  | cons c first ih => rw [List.cons_append, runMany_cons, runMany_cons, ih]; rfl

end Session

/-! ### Requests -/

/-- What a session may be asked to do with contexts. -/
inductive Session.Request where
  /-- Make a context for a source and keep it. -/
  | keep (id : String) (source : List Char)
  /-- Run a source, if it compiles. -/
  | source (id : String) (source : List Char)
  /-- Run the scripts of a note. -/
  | note (text : List Char)
  /-- Run a context that is kept. -/
  | execute (n : Nat)
  /-- Run some of the contexts that are kept, one after another. -/
  | many (ns : List Nat)

/-- A session and the contexts that are kept beside it. -/
structure Desk (σ : Type) where
  session : Session σ
  kept : List Context := []

namespace Desk

/-- Runs kept contexts one after another and keeps them as they are then; a number without a context
stands for nothing. -/
def runKept (d : Desk σ) : List Nat → List Report × Desk σ
  | [] => ([], d)
  | n :: ns =>
    match d.kept[n]? with
    | none => runKept d ns
    | some c =>
      let (c, session) := d.session.execute host c
      let (reports, d) := runKept ⟨session, d.kept.set n c⟩ ns
      (c.report :: reports, d)

/-- Does what is asked for; a request that comes to nothing has no reports. -/
def serve (d : Desk σ) : Session.Request → List Report × Desk σ
  | .keep id source => ([], { d with kept := d.kept ++ [.ofSource id source] })
  | .source id source =>
    let (r, session) := d.session.runSource host id source
    (r.toOption.toList, { d with session })
  | .note text =>
    let (r, session) := d.session.runNote host text
    (r.toOption.getD [], { d with session })
  | .execute n => d.runKept host [n]
  | .many ns => d.runKept host ns

def serveAll (d : Desk σ) : List Session.Request → List Report × Desk σ
  | [] => ([], d)
  | r :: rest =>
    let (reports, d) := d.serve host r
    let (more, d) := serveAll d rest
    (reports ++ more, d)

end Desk

namespace Session.Request

/-- The contexts that are kept behind a request. -/
def keeps (kept : List Context) : Session.Request → List Context
  | .keep id text => kept ++ [.ofSource id text]
  | _ => kept

/-- The contexts that a request runs. -/
def contexts (kept : List Context) : Session.Request → List Context
  | .keep _ _ => []
  | .source id text =>
    match compile text with
    | .ok script => [{ id, compiled := .ok script }]
    | .error _ => []
  | .note text => (Page.scriptBlocks text).map .ofBlock
  | .execute n => (kept[n]?).toList
  | .many ns => ns.filterMap (kept[·]?)

end Session.Request

/-- The contexts that requests run, in order. -/
def contextsOf : List Context → List Session.Request → List Context
  | _, [] => []
  | kept, r :: rest => r.contexts kept ++ contextsOf (r.keeps kept) rest

/-! ### Requests as one run -/

namespace Desk

/-- The contexts kept here are those, apart from what has become of them. -/
def Keeps (d : Desk σ) (kept : List Context) : Prop :=
  d.kept.map Context.fresh = kept.map Context.fresh

variable {d : Desk σ} {kept : List Context}

lemma Keeps.get (h : d.Keeps kept) (n : Nat) :
    (d.kept[n]?).map Context.fresh = (kept[n]?).map Context.fresh := by
  rw [← List.getElem?_map, ← List.getElem?_map, h]

/-- Running kept contexts is running contexts, and they are kept. -/
lemma runKept_eq (ns : List Nat) (h : d.Keeps kept) :
    (d.runKept host ns).1 = (d.session.runMany host (ns.filterMap (kept[·]?))).1 ∧
      (d.runKept host ns).2.session = (d.session.runMany host (ns.filterMap (kept[·]?))).2 ∧
      (d.runKept host ns).2.Keeps kept := by
  induction ns generalizing d with
  | nil => exact ⟨rfl, rfl, h⟩
  | cons n ns ih =>
    have hget := h.get n
    cases hc : d.kept[n]? with
    | none =>
      rw [hc, Option.map_none, eq_comm, Option.map_eq_none_iff] at hget
      have hrun : d.runKept host (n :: ns) = d.runKept host ns := by rw [runKept, hc]
      rw [hrun, List.filterMap_cons_none hget]
      exact ih h
    | some c =>
      rw [hc, Option.map_some, eq_comm, Option.map_eq_some_iff] at hget
      obtain ⟨c', hc', hfresh⟩ := hget
      -- what has run takes its place again, with the id and the script that it had
      have hset : (⟨(d.session.execute host c).2,
          d.kept.set n (d.session.execute host c).1⟩ : Desk σ).Keeps kept := by
        have hself : (d.kept.map Context.fresh).set n c.fresh = d.kept.map Context.fresh := by
          have hfreshes : (d.kept.map Context.fresh)[n]? = some c.fresh := by
            rw [List.getElem?_map, hc]
            rfl
          obtain ⟨hlt, hself⟩ := List.getElem?_eq_some_iff.1 hfreshes
          rw [← hself, List.set_getElem_self]
        unfold Keeps
        rw [List.map_set, Session.fresh_execute, hself]
        exact h
      obtain ⟨hreports, hsession, hkeeps⟩ := ih hset
      obtain ⟨hreport, hafter⟩ := Session.execute_fresh host d.session c
      obtain ⟨hreport', hafter'⟩ := Session.execute_fresh host d.session c'
      have hrun : d.runKept host (n :: ns) =
          ((d.session.execute host c).1.report ::
            (runKept host ⟨(d.session.execute host c).2,
              d.kept.set n (d.session.execute host c).1⟩ ns).1,
            (runKept host ⟨(d.session.execute host c).2,
              d.kept.set n (d.session.execute host c).1⟩ ns).2) := by
        rw [runKept, hc]
      rw [hrun, List.filterMap_cons_some hc', Session.runMany_cons, ← hreport', ← hafter', hfresh,
        hreport, hafter]
      exact ⟨congrArg _ hreports, hsession, hkeeps⟩

/-- A request is a run of its contexts. -/
lemma serve_eq (r : Session.Request) (h : d.Keeps kept) :
    (d.serve host r).1 = (d.session.runMany host (r.contexts kept)).1 ∧
      (d.serve host r).2.session = (d.session.runMany host (r.contexts kept)).2 ∧
      (d.serve host r).2.Keeps (r.keeps kept) := by
  cases r with
  | keep id text =>
    refine ⟨rfl, rfl, ?_⟩
    show (d.kept ++ [_]).map Context.fresh = (kept ++ [_]).map Context.fresh
    rw [List.map_append, h, ← List.map_append]
  | source id text =>
    have hrun : (d.session.runSource host id text).1.toOption.toList =
          (d.session.runMany host (Session.Request.contexts kept (.source id text))).1 ∧
        (d.session.runSource host id text).2 =
          (d.session.runMany host (Session.Request.contexts kept (.source id text))).2 := by
      rw [Session.runSource, Session.Request.contexts]
      cases compile text <;> exact ⟨rfl, rfl⟩
    exact ⟨hrun.1, hrun.2, h⟩
  | note text =>
    have hrun : (d.session.runNote host text).1.toOption.getD [] =
          (d.session.runMany host (Session.Request.contexts kept (.note text))).1 ∧
        (d.session.runNote host text).2 =
          (d.session.runMany host (Session.Request.contexts kept (.note text))).2 := by
      rw [Session.runNote_eq, Session.Request.contexts]
      split
      · next hnil => rw [hnil]; exact ⟨rfl, rfl⟩
      · exact ⟨rfl, rfl⟩
    exact ⟨hrun.1, hrun.2, h⟩
  | execute n =>
    have hlist : [n].filterMap (kept[·]?) = (kept[n]?).toList := by
      cases hc : kept[n]? with
      | none => rw [List.filterMap_cons_none hc]; rfl
      | some c => rw [List.filterMap_cons_some hc]; rfl
    have hrun := runKept_eq host [n] h
    rwa [hlist] at hrun
  | many ns => exact runKept_eq host ns h

/-- **Requests are one run of the contexts that they name.** -/
theorem serveAll_eq (requests : List Session.Request) (h : d.Keeps kept) :
    (d.serveAll host requests).1 = (d.session.runMany host (contextsOf kept requests)).1 ∧
      (d.serveAll host requests).2.session =
        (d.session.runMany host (contextsOf kept requests)).2 := by
  induction requests generalizing d kept with
  | nil => exact ⟨rfl, rfl⟩
  | cons r rest ih =>
    obtain ⟨hreports, hsession, hkeeps⟩ := serve_eq host r h
    obtain ⟨hmore, hafter⟩ := ih hkeeps
    rw [hsession] at hmore hafter
    rw [contextsOf, Session.runMany_append]
    exact ⟨congrArg₂ (· ++ ·) hreports hmore, hafter⟩

end Desk

/-! ### Turns -/

/-- The run of one context in a session. -/
structure Turn (σ : Type) where
  session : Session σ
  context : Context

namespace Turn

def report (t : Turn σ) : Report :=
  (t.session.execute host t.context).1.report

/-- What happens in it. -/
def events (t : Turn σ) : List Event :=
  (contextRun host t.context.compiled (t.session.machine t.context.id {})).2.journal.toList

end Turn

namespace Session

/-- The turns of contexts that run one after another. -/
def turns (s : Session σ) : List Context → List (Turn σ)
  | [] => []
  | c :: rest => ⟨s, c⟩ :: turns (s.execute host c).2 rest

variable (s : Session σ)

lemma journal_execute (c : Context) :
    (s.execute host c).2.journal.toList = s.journal.toList ++ Turn.events host ⟨s, c⟩ := by
  obtain ⟨m, hm, hsession, -, -⟩ := execute_eq host s c
  rw [hsession, Turn.events, ← contextRun_machine host s c.compiled c.id c.terminal, ← hm]
  exact Array.toList_append

/-- Contexts that run one after another report, and do, what they do in their turns. -/
theorem runMany_eq_turns (contexts : List Context) :
    (s.runMany host contexts).1 = (s.turns host contexts).map (Turn.report host) ∧
      (s.runMany host contexts).2.journal.toList =
        s.journal.toList ++ (s.turns host contexts).flatMap (Turn.events host) := by
  induction contexts generalizing s with
  | nil => exact ⟨rfl, (List.append_nil _).symm⟩
  | cons c rest ih =>
    obtain ⟨hreports, hjournal⟩ := ih (s.execute host c).2
    rw [runMany_cons, hreports, hjournal, journal_execute, turns, List.map_cons, List.flatMap_cons,
      List.append_assoc]
    exact ⟨rfl, rfl⟩

end Session

end ScriptedNotes
