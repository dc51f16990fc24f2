import Mathlib.Data.List.Forall2
import Mathlib.Tactic.Common
import ScriptedNotes.Proofs.Run.Leftover
import ScriptedNotes.Proofs.Session.ContextRun

/-!
Contexts are isolated from one another. What one run can hand on to the next are the store, the
tasks and the frames. The registry tells of every task that was registered in a run, and a run that
registers none leaves it as it was. The frames of an earlier run may all be there when the next
begins: nobody outside of them can reach them, and that the new frames get other numbers is not to
be seen. So, as long as there are no tasks that were registered in runs, contexts run behind another
as they run without it, if that one leaves the store as it was.
-/

namespace ScriptedNotes

open Run Run.Exec Run.Discipline Script

variable {σ : Type} (host : Host σ)

/-! ### The registry -/

lemma hostOnly_put (name description : String) {handler : Handler} (hrun : handler.fromRun = true)
    (r : Registry) : Registry.hostOnly (Keyed.put name ⟨description, handler⟩ r) = false := by
  have hmem : (name, (⟨description, handler⟩ : Task)) ∈ Keyed.put name ⟨description, handler⟩ r :=
    mem_of_get? (Keyed.get?_put_self ..)
  refine List.all_eq_false.2 ⟨_, hmem, ?_⟩
  simp [hrun]

/-- The discipline of the registry: behind a run the tasks are as before, or there is one among them
that was registered in a run. -/
def registering (σ : Type) : Discipline σ :=
  ofStates (fun _ => True) (fun m m' => m'.tasks.hostOnly = true → m'.tasks = m.tasks)
    (fun _ _ => rfl) fun m₁ m₂ m₃ h h' hhosts => by
      have htasks := h' hhosts
      rw [htasks] at hhosts ⊢
      exact h hhosts

lemma registering_same {m m' : Machine σ} (htasks : m'.tasks = m.tasks) :
    (registering σ).Leads m m' :=
  ⟨trivial, fun _ => htasks, trivial⟩

lemma laws_registering : (registering σ).StateLaws where
  inward _ _ _ htasks _ _ _ := registering_same htasks
  register m name description _ _ hrun := by
    refine ⟨trivial, fun hhosts => ?_, trivial⟩
    rw [hostOnly_put name description hrun] at hhosts
    cases hhosts
  line _ _ _ := registering_same rfl
  cleared _ _ := registering_same rfl
  slept _ _ _ := registering_same rfl
  changed _ _ _ _ _ := registering_same rfl
  read _ _ _ _ _ := registering_same rfl

/-- A run that leaves only tasks in the registry that the host registered outside of runs leaves the
registry as it was. -/
theorem tasks_contextRun (compiled : Except SyntaxError Compiled) (m : Machine σ)
    (hhosts : (contextRun host compiled m).2.tasks.hostOnly = true) :
    (contextRun host compiled m).2.tasks = m.tasks := by
  have hD : AllowsSessions (registering σ) :=
    ⟨root_ofStates laws_registering, fun _ _ _ _ => registering_same rfl⟩
  have hrun := leads_contextRun (m := m) (lawful_ofStates laws_registering)
    (liberal_ofStates laws_registering) hD host compiled trivial
  exact hrun.step hhosts

/-! ### Frames of earlier runs -/

section

variable {left : Heap}

/-- A context runs behind other frames as it runs without them. -/
theorem leftover_contextRun (compiled : Except SyntaxError Compiled) :
    (leftover σ left).rel id (contextRun host compiled) (contextRun host compiled) := by
  have hC : (leftover σ left).Lawful host.backend := lawful_leftover host.backend
  have hrefresh : ∀ hook : Hook σ,
      (leftover σ left).rel id (refreshStep hook) (refreshStep hook) := fun hook =>
    corresponds_refreshStep hC.toHosting (leftover_step (fun _ _ => rfl) fun _ => rfl) leftover_call
  refine corresponds_contextRun hC.toHosting ?_ hrefresh compiled
  exact leftover_runScript host.backend host.fuel

end

/-! ### Contexts one after another -/

/-- Procedures that the host registered outside of runs and that are blind to the numbers of frames
are the same for all numbers. -/
lemma renamed_of_blindTo {left : Heap} {r : Registry} (hhosts : r.hostOnly = true)
    (hblind : r.BlindTo left) : r.Renamed left.skip r := by
  refine List.forall₂_same.2 fun p hp => ⟨rfl, rfl, ?_⟩
  obtain ⟨run, hhandler⟩ := host_of_hostOnly hhosts hp
  rw [hhandler]
  exact .host false (hblind p hp run false hhandler)

/-- Without frames of its own, a state with frames of earlier runs is one with these before it. -/
lemma behind_of_empty {m : Machine σ} (hheap : m.heap = #[]) (hunbound : m.unbound = [])
    (left : Heap) : m.behind left m.tasks = { m with heap := left } := by
  have hbehind : left.behind m.heap = left := by
    rw [hheap]
    unfold Heap.behind
    rw [Array.map_empty, Array.append_empty]
  unfold Machine.behind
  rw [hbehind, hunbound, List.map_nil, ← hunbound]

/-- Runs that look the same to whoever cannot see the frames. -/
structure LooksLike {α : Type} (p q : Result α × Machine σ) : Prop where
  result : p.1 = q.1
  terminal : p.2.terminal = q.2.terminal
  journal : p.2.journal = q.2.journal
  store : p.2.store = q.2.store

lemma map_id_result {α : Type} (r : Result α) : r.map id = r := by
  cases r <;> rfl

namespace Session

/-- The registry behind an execution that leaves no task there that was registered in a run. -/
lemma tasks_execute {s : Session σ} {c : Context}
    (hhosts : (s.execute host c).2.tasks.hostOnly = true) :
    (s.execute host c).2.tasks = s.tasks := by
  obtain ⟨m, hm, hsession, -, -⟩ := execute_eq host s c
  rw [hsession] at hhosts ⊢
  subst hm
  exact tasks_contextRun host c.compiled _ hhosts

/-- A run begins in the same state in both sessions, whatever has happened in them. -/
structure Alike (s s' : Session σ) : Prop where
  store : s'.store = s.store
  tasks : s'.tasks = s.tasks
  heap : s.tasks.hostOnly = false → s'.heap = s.heap

variable {s s' : Session σ}

lemma Alike.machine (h : Alike s s') (id : String) (t : Terminal) :
    s'.machine id t = s.machine id t := by
  unfold Session.machine
  rw [h.store, h.tasks]
  cases hhosts : s.tasks.hostOnly with
  | true => rfl
  | false => rw [h.heap hhosts]

/-- The same context runs alike, and leaves the sessions alike. -/
lemma Alike.execute (h : Alike s s') (c : Context) :
    (s'.execute host c).1 = (s.execute host c).1 ∧
      ∃ m, (s.execute host c).2 = s.resume m ∧ (s'.execute host c).2 = s'.resume m := by
  unfold Session.execute
  rw [h.machine c.id c.terminal]
  split <;> next m _ => exact ⟨rfl, m, rfl, rfl⟩

lemma alike_resume (s s' : Session σ) (m : Machine σ) : Alike (s.resume m) (s'.resume m) :=
  ⟨rfl, rfl, fun _ => rfl⟩

/-- What happens when contexts run is the same in sessions that are alike. -/
theorem Alike.runMany (contexts : List Context) : ∀ {s s' : Session σ}, Alike s s' →
    (s'.runMany host contexts).1 = (s.runMany host contexts).1 ∧
      Alike (s.runMany host contexts).2 (s'.runMany host contexts).2 ∧
      ∃ events, (s.runMany host contexts).2.journal = s.journal ++ events ∧
        (s'.runMany host contexts).2.journal = s'.journal ++ events := by
  induction contexts with
  | nil =>
    intro s s' h
    exact ⟨rfl, h, #[], Array.append_empty.symm, Array.append_empty.symm⟩
  | cons c rest ih =>
    intro s s' h
    obtain ⟨hcontext, m, hs, hs'⟩ := h.execute host c
    obtain ⟨hreports, hafter, events, hjournal, hjournal'⟩ := ih (alike_resume s s' m)
    rw [← hs, ← hs'] at hreports hafter
    rw [← hs] at hjournal
    rw [← hs'] at hjournal'
    rw [runMany_cons, runMany_cons]
    refine ⟨?_, hafter, m.journal ++ events, ?_, ?_⟩
    · rw [hcontext, hreports]
    · rw [hjournal, hs]
      exact Array.append_assoc
    · rw [hjournal', hs']
      exact Array.append_assoc

/-- **Contexts are isolated from one another.** In a session whose tasks the host registered outside
of runs, let a context run first that registers none and leaves the store as it was, however it
ends. Then the reports of the contexts behind it, what happens while they run, and the store that
they leave are what they are without it. This is not owed to the frames of the first run being given
up: a context that runs with any frames kept from before ends, shows, does and leaves the same. -/
theorem contexts_are_isolated (s : Session σ) (a : Context) (rest : List Context)
    (hhosts : s.tasks.hostOnly = true) (hquiet : (s.execute host a).2.tasks.hostOnly = true)
    (hstore : (s.execute host a).2.store = s.store) :
    (s.runMany host (a :: rest)).1 = (s.execute host a).1.report :: (s.runMany host rest).1 ∧
    (s.runMany host (a :: rest)).2.store = (s.runMany host rest).2.store ∧
    (∃ events, (s.runMany host rest).2.journal = s.journal ++ events ∧
      (s.runMany host (a :: rest)).2.journal = (s.execute host a).2.journal ++ events) ∧
    ∀ (b : Context) (kept : Heap), s.tasks.BlindTo kept →
      LooksLike
        (contextRun host b.compiled
          { (s.execute host a).2.machine b.id b.terminal with heap := kept })
        (contextRun host b.compiled (s.machine b.id b.terminal)) := by
  have htasks : (s.execute host a).2.tasks = s.tasks := tasks_execute host hquiet
  have halike : Alike s (s.execute host a).2 :=
    ⟨hstore, htasks, fun hscript => by rw [hhosts] at hscript; cases hscript⟩
  obtain ⟨hreports, hafter, events, hjournal, hjournal'⟩ := halike.runMany host rest
  refine ⟨?_, hafter.store, ⟨events, hjournal, hjournal'⟩, ?_⟩
  · rw [runMany_cons, hreports]
  · intro b kept hblind
    have hheap : (s.machine b.id b.terminal).heap = #[] := if_pos hhosts
    have hcontext : (leftover σ kept).rel id (contextRun host b.compiled)
        (contextRun host b.compiled) := leftover_contextRun host b.compiled
    obtain ⟨hend, tasks, -, hbehind⟩ := hcontext (s.machine b.id b.terminal) _
      ⟨s.tasks, renamed_of_blindTo hhosts hblind, (behind_of_empty hheap rfl kept).symm⟩
    rw [map_id_result] at hend
    rw [halike.machine b.id b.terminal]
    refine ⟨hend, ?_, ?_, ?_⟩ <;> rw [hbehind] <;> rfl

/-- Declares a variable, assigns to a name of its global frame, prints, and dies of calling itself
too deeply. -/
def spoiler : Context where
  id := "a"
  compiled := .ok
    { tier := .advanced
      program :=
        [.declare false "x" (some (.number 1)), .assign (.ident "y") (.str "left"),
          .expr (.callNamed "print" [.ident "y"]),
          .function (.mk (some "f") [] [.expr (.callNamed "f" [])]), .expr (.callNamed "f" [])] }

/-- Asks the store and then for a variable that it has not declared. -/
def reader : Context where
  id := "b"
  compiled := .ok
    { tier := .advanced
      program :=
        [.expr (.callNamed "print" [.callNamed "readFile" [.str "n"]]), .expr (.ident "y")] }

/-- A session with the tasks that are there from the start. -/
def unused : Session Unit :=
  { store := () }

theorem contexts_are_isolated_spoiler :
    (unused.execute (.willing 200) spoiler).1.status = .failed ∧
      (unused.runMany (.willing 200) [spoiler, reader]).1 =
        (unused.execute (.willing 200) spoiler).1.report ::
          (unused.runMany (.willing 200) [reader]).1 ∧
      LooksLike
        (contextRun (.willing 200) reader.compiled
          { (unused.execute (.willing 200) spoiler).2.machine "b" {} with
            heap := (unused.execute (.willing 200) spoiler).2.heap })
        (contextRun (.willing 200) reader.compiled (unused.machine "b" {})) := by
  have hquiet : (unused.execute (.willing 200) spoiler).2.tasks.hostOnly = true := by
    decide +kernel
  have hfailed : (unused.execute (.willing 200) spoiler).1.status = .failed := by
    decide +kernel
  have hstore : (unused.execute (.willing 200) spoiler).2.store = unused.store :=
    Subsingleton.elim _ _
  obtain ⟨hreports, -, -, hframes⟩ :=
    contexts_are_isolated (.willing 200) unused spoiler [reader] rfl hquiet hstore
  exact ⟨hfailed, hreports, hframes reader _ (blindTo_builtin _)⟩

end Session

end ScriptedNotes
