import ScriptedNotes.Proofs.Run.Dealings
import ScriptedNotes.Proofs.Session.Note

/-!
The tasks of a session. The host and the scripts share them: the host registers tasks between runs,
scripts and their tasks do anywhere inside of runs, and all of them invoke tasks by their names. The
history of a session puts their dealings with tasks in one order, and the last registration wins
(`Session.last_registration_wins`): the list of tasks, what an invocation runs and which names are
reported as missing follow from the registrations that came before.
-/

namespace ScriptedNotes

open Run Run.Exec

variable {σ α : Type} {host : Host σ}

/-! ### Runs of contexts -/

/-- What runs with a context has a log. -/
lemma logged_contextRun (host : Host σ) (c : Context) (m : Machine σ) :
    Logged host.backend (contextRun host c.compiled) m := by
  have hC := hosting_logging host.backend
  have hpause : ∀ hook : Hook σ, ∀ m, Logged host.backend (record (.slept hook.delay)) m :=
    fun _ => Quiet.logged (fun _ _ => rfl) host.backend
  have hrefresh : ∀ hook : Hook σ, ∀ m, Logged host.backend (refreshStep hook) m := fun hook =>
    corresponds_refreshStep hC (hpause hook) ((quiet_callStore _ _).logged host.backend)
  have hscript : ∀ script m,
      Logged host.backend (runScript host.backend host.fuel script) m :=
    logged_runScript host.backend host.fuel
  exact corresponds_contextRun hC hscript hrefresh c.compiled m

namespace Session

variable {s : Session σ} {log more : List (Dealing σ)}

lemma map_fst_list (r : Registry) : r.list.map Prod.fst = Keyed.keys r :=
  List.map_map

lemma invokeTask_eq_error_iff (host : Host σ) (s : Session σ) (name : String) (args : List Value)
    (e : Run.Error) :
    (s.invokeTask host name args).1 = .error (.run e) ↔
      (invoke host.backend host.fuel name args (s.machine ("task:" ++ name) {})).1 = .error e := by
  unfold invokeTask
  dsimp only
  rcases invoke host.backend host.fuel name args (s.machine ("task:" ++ name) {}) with
    ⟨v | e' | _, m⟩ <;> simp

lemma invokeTask_eq (host : Host σ) (s : Session σ) (name : String) (args : List Value) :
    (s.invokeTask host name args).2 =
      s.resume (invoke host.backend host.fuel name args (s.machine ("task:" ++ name) {})).2 := by
  unfold invokeTask
  dsimp only
  split <;> next heq => rw [heq]

/-! ### Histories -/

/-- What has happened to the tasks of a session, from its start on. -/
inductive History (host : Host σ) : Session σ → List (Dealing σ) → Prop
  /-- The tasks that are there from the start count as registered. -/
  | start (store : σ) :
      History host { store } (Registry.builtin.map fun (name, task) => .registered name task)
  | registerTask {s : Session σ} {log : List (Dealing σ)} (h : History host s log)
      (name description : String) (handler : Handler) :
      History host (s.registerTask name description handler)
        (log ++ [.registered name ⟨description, handler⟩])
  | execute {s : Session σ} {log more : List (Dealing σ)} (h : History host s log) (c : Context)
      (hmore : Deals host.backend (contextRun host c.compiled) (s.machine c.id c.terminal) more) :
      History host (s.execute host c).2 (log ++ more)
  | invokeTask {s : Session σ} {log more : List (Dealing σ)} (h : History host s log)
      (name : String) (args : List Value)
      (hmore : Deals host.backend (invoke host.backend host.fuel name args)
        (s.machine ("task:" ++ name) {}) more) :
      History host (s.invokeTask host name args).2 (log ++ more)

/-- **The history accounts for the tasks**: they are those that its registrations make, and every
invocation in it found those that the registrations before had made. -/
theorem History.accounted (h : History host s log) :
    s.tasks = Registry.after [] log ∧ Registry.Explains [] log := by
  -- a run begins with the tasks of the session and leaves its own behind
  have hrun : ∀ {s s' : Session σ} {α : Type} {x : Exec σ α} {m : Machine σ}
      {log more : List (Dealing σ)}, Deals host.backend x m more → m.tasks = s.tasks →
      s'.tasks = (x m).2.tasks → s.tasks = Registry.after [] log ∧ Registry.Explains [] log →
      s'.tasks = Registry.after [] (log ++ more) ∧ Registry.Explains [] (log ++ more) := by
    intro s s' α x m log more hmore hbefore hafter ⟨htasks, hexplains⟩
    obtain ⟨hend, hinside⟩ := hmore.accounted
    rw [hbefore, htasks] at hend hinside
    rw [Registry.after_append, Registry.explains_append]
    exact ⟨hafter.trans hend, hexplains, hinside⟩
  induction h with
  | start store => exact ⟨rfl, trivial⟩
  | @registerTask s log h name description handler ih =>
    rw [Registry.after_append, Registry.explains_append, ← ih.1]
    exact ⟨rfl, ih.2, trivial⟩
  | @execute s log more h c hmore ih =>
    obtain ⟨m, hm, hsession, -⟩ := execute_eq host s c
    refine hrun hmore rfl ?_ ih
    rw [hsession, hm]
    rfl
  | @invokeTask s log more h name args hmore ih =>
    refine hrun hmore rfl ?_ ih
    rw [invokeTask_eq]
    rfl

/-! ### Requests -/

lemma History.exists_execute (h : History host s log) (c : Context) :
    ∃ more, History host (s.execute host c).2 (log ++ more) := by
  obtain ⟨more, hmore⟩ := logged_contextRun host c (s.machine c.id c.terminal)
  exact ⟨more, h.execute c hmore⟩

lemma History.exists_runMany (h : History host s log) (contexts : List Context) :
    ∃ more, History host (s.runMany host contexts).2 (log ++ more) := by
  induction contexts generalizing s log with
  | nil => exact ⟨[], by rwa [List.append_nil]⟩
  | cons c rest ih =>
    obtain ⟨first, hfirst⟩ := h.exists_execute c
    obtain ⟨more, hmore⟩ := ih hfirst
    rw [List.append_assoc] at hmore
    exact ⟨first ++ more, hmore⟩

lemma History.exists_runNote (h : History host s log) (text : List Char) :
    ∃ more, History host (s.runNote host text).2 (log ++ more) := by
  rw [runNote_eq]
  split
  · exact ⟨[], by rwa [List.append_nil]⟩
  · exact h.exists_runMany _

lemma History.exists_runSource (h : History host s log) (id : String) (source : List Char) :
    ∃ more, History host (s.runSource host id source).2 (log ++ more) := by
  unfold runSource
  cases Script.compile source with
  | error e => exact ⟨[], by rwa [List.append_nil]⟩
  | ok script => exact h.exists_execute _

/-! ### The last registration wins -/

/-- An invocation in this state runs the handler that the log has registered last. It fails for want
of the task just when the log has not registered any, as long as the procedures of the host are
candid about missing tasks. -/
structure RunsLatest (S : Backend σ) (log : List (Dealing σ)) (fuel : Nat) (name : String)
    (args : List Value) (m : Machine σ) : Prop where
  runs : invoke S (fuel + 1) name args m =
    match latest? name log with
    | some task => task.handler.run S fuel args m
    | none => (.error (.taskNotFound name), m)
  unregistered : (∀ task, .registered name task ∉ log) →
    (invoke S (fuel + 1) name args m).1 = .error (.taskNotFound name)
  missing_iff : m.tasks.Candid Error.IsMissing →
    ((invoke S (fuel + 1) name args m).1 = .error (.taskNotFound name) ↔
      ∀ task, .registered name task ∉ log)

/-- The list of these tasks is what the log has registered. -/
structure ListsLatest (log : List (Dealing σ)) (tasks : Registry) : Prop where
  /-- It is in strictly increasing order of the names. -/
  increasing : (tasks.list.map Prod.fst).Pairwise (· < ·)
  /-- It has all names that were ever registered, and no others. -/
  names : ∀ name, name ∈ tasks.list.map Prod.fst ↔ ∃ task, .registered name task ∈ log
  /-- A name has the description that it was registered with last. -/
  descriptions : ∀ name description, (name, description) ∈ tasks.list ↔
    (latest? name log).map Task.description = some description

/-- What the tasks of a session are by its history, and that each request carries the history on. -/
structure LastWins (host : Host σ) (s : Session σ) (log : List (Dealing σ)) : Prop where
  list : ListsLatest log s.tasks
  /-- What a procedure of the host was told of the tasks, inside of a run, is the list that the
  registrations before it say. -/
  lists : ∀ before m after, log = before ++ .listed m :: after → ListsLatest before m.tasks
  /-- Every invocation that there was, from the host or from inside of a run, did what the
  registrations before it say. -/
  invocations : ∀ before fuel name args m after,
    log = before ++ .invoked fuel name args m :: after →
      RunsLatest host.backend before fuel name args m
  /-- So does an invocation that starts wherever a run has got to. -/
  everywhere : ∀ {α : Type} (x : Exec σ α) m more, m.tasks = s.tasks →
    Deals host.backend x m more → ∀ fuel name args,
      RunsLatest host.backend (log ++ more) fuel name args (x m).2
  /-- A script that ends for want of a task names one that nobody has registered until then. -/
  scripts : s.tasks.Candid Error.IsMissing → ∀ script m, m.tasks = s.tasks →
    ∃ more, Deals host.backend (runScript host.backend host.fuel script) m more ∧
      ∀ name, (runScript host.backend host.fuel script m).1 = .error (.taskNotFound name) →
        ∀ task, .registered name task ∉ log ++ more
  /-- What is left of a run, a running handler for one, goes on in the same way when a task is
  registered that it does not invoke from there on, unless it asks for the list of all tasks. -/
  unaffected : ∀ {α : Type} (x : Exec σ α) m more, Deals host.backend x m more →
    ∀ name task, ¬ Invokes name more → ¬ Lists more →
      (do register name task; x : Exec σ α) m =
        Prod.map id (·.withTasks (Registry.after (Keyed.put name task m.tasks) more)) (x m)
  /-- The statements that are left of a body are such a rest of a run. -/
  rest : ∀ fuel frame stmts m,
    ∃ more, Deals host.backend (sequence (exec host.backend fuel frame) stmts) m more
  /-- So is what is left of a procedure of the host. -/
  restOfHost : ∀ fuel procedure m,
    ∃ more, Deals host.backend
      (perform host.backend (call host.backend fuel) (invoke host.backend fuel) procedure) m more
  execute : ∀ c, ∃ more, History host (s.execute host c).2 (log ++ more)
  runMany : ∀ contexts, ∃ more, History host (s.runMany host contexts).2 (log ++ more)
  runNote : ∀ text, ∃ more, History host (s.runNote host text).2 (log ++ more)
  runSource : ∀ id source, ∃ more, History host (s.runSource host id source).2 (log ++ more)
  /-- What the host asks for is reported as missing when nobody has registered it, and what is
  reported as missing nobody has registered until then. -/
  invokeTask : ∀ name args, ∃ more, History host (s.invokeTask host name args).2 (log ++ more) ∧
    (s.tasks.Candid Error.IsMissing → ∀ other,
      (s.invokeTask host name args).1 = .error (.run (.taskNotFound other)) →
        ∀ task, .registered other task ∉ log ++ more) ∧
    (host.fuel ≠ 0 → (∀ task, .registered name task ∉ log) →
      (s.invokeTask host name args).1 = .error (.run (.taskNotFound name)))

lemma runsLatest_of_get? {S : Backend σ} {fuel : Nat} {name : String} {args : List Value}
    {m : Machine σ} (hfound : Keyed.get? name m.tasks = latest? name log) :
    RunsLatest S log fuel name args m := by
  have hinvoke := invoke_succ_eq S fuel name args m
  rw [hfound] at hinvoke
  have hunregistered : (∀ task, .registered name task ∉ log) →
      (invoke S (fuel + 1) name args m).1 = .error (.taskNotFound name) := by
    intro hnone
    rw [hinvoke, (latest?_eq_none_iff name log).2 hnone]
  refine ⟨hinvoke, hunregistered, fun hcandid => ⟨fun hmissing => ?_, hunregistered⟩⟩
  have hinvoked := (Account.evaluator lawful_missing S (fuel + 1)).invoke name args m hcandid
  obtain ⟨more, hmore⟩ := (evaluatorLogged S (fuel + 1)).invoke name args m
  have hnone := hinvoked.explains _ hmissing name rfl
  rw [hmore.accounted.1, get?_after, Option.or_eq_none_iff] at hnone
  rw [← latest?_eq_none_iff, ← hfound]
  exact hnone.2

/-- Tasks that registrations have made are listed as these say. -/
lemma listsLatest_after (log : List (Dealing σ)) : ListsLatest log (Registry.after [] log) := by
  have hordered : Keyed.Ordered (Registry.after [] log) := ordered_after log List.Pairwise.nil
  have hget : ∀ name, Keyed.get? name (Registry.after [] log) = latest? name log := fun name =>
    (get?_after [] name log).trans Option.or_none
  have hmem : ∀ name task, (name, task) ∈ Registry.after [] log ↔ latest? name log = some task :=
    fun name task => by rw [← hget, Keyed.get?_eq_some_iff hordered.nodup]
  refine ⟨?_, fun name => ?_, fun name description => ?_⟩
  · rw [map_fst_list]
    exact hordered
  · rw [map_fst_list, ← not_iff_not, ← Keyed.get?_eq_none_iff, hget, latest?_eq_none_iff]
    exact not_exists.symm
  · rw [Option.map_eq_some_iff]
    constructor
    · intro hlisted
      obtain ⟨⟨n, task⟩, htask, hentry⟩ := List.mem_map.1 hlisted
      cases hentry
      exact ⟨task, (hmem name task).1 htask, rfl⟩
    · rintro ⟨task, htask, rfl⟩
      exact List.mem_map.2 ⟨(name, task), (hmem name task).2 htask, rfl⟩

section

variable (h : History host s log)

include h

/-- An invocation found the tasks as the registrations before it had left them. -/
lemma History.get?_of_invoked {before after : List (Dealing σ)} {fuel : Nat} {name : String}
    {args : List Value} {m : Machine σ}
    (hlog : log = before ++ .invoked fuel name args m :: after) :
    Keyed.get? name m.tasks = latest? name before := by
  have hexplains := h.accounted.2
  rw [hlog, Registry.explains_append] at hexplains
  rw [hexplains.2.1, get?_after]
  exact Option.or_none

/-- A list showed the tasks as the registrations before it had left them. -/
lemma History.listsLatest_of_listed {before after : List (Dealing σ)} {m : Machine σ}
    (hlog : log = before ++ .listed m :: after) : ListsLatest before m.tasks := by
  have hexplains := h.accounted.2
  rw [hlog, Registry.explains_append] at hexplains
  rw [hexplains.2.1]
  exact listsLatest_after before

/-- A run in the session leaves the tasks that the history makes with its dealings. -/
lemma History.tasks_behind {x : Exec σ α} {m : Machine σ} (hbefore : m.tasks = s.tasks)
    (hmore : Deals host.backend x m more) :
    (x m).2.tasks = Registry.after [] (log ++ more) := by
  rw [hmore.accounted.1, hbefore, h.accounted.1, Registry.after_append]

/-- What is not there when a run is over has not been registered. -/
lemma History.not_registered {x : Exec σ α} {m : Machine σ} (hbefore : m.tasks = s.tasks)
    (hmore : Deals host.backend x m more) {name : String}
    (hnone : Keyed.get? name (x m).2.tasks = none) :
    ∀ task, .registered name task ∉ log ++ more := by
  rw [h.tasks_behind hbefore hmore, get?_after, Option.or_eq_none_iff] at hnone
  exact (latest?_eq_none_iff name (log ++ more)).1 hnone.1

end

section

open Script (Function Program)

/-- A handler that registers another one in its own place and then goes on. -/
private def selfReplacing : Function :=
  .mk none []
    [.expr (.callNamed "registerTask"
        [.str "t", .str "second", .lambda (.mk none [] [.expr (.callNamed "print" [.str "new"])])]),
      .expr (.callNamed "print" [.str "old"])]

/-- A procedure of the host that registers a task anew, tells which there are then, and runs it. -/
private def hiring : List Value → Action := fun _ =>
  .register "t" "third" (fun _ => .emit .info "newest" (.done .nil)) <|
    .ask .tasks fun list =>
      .emit .info (", ".intercalate (list.map Prod.fst)) <| .ask (.invoke "t" []) fun
        | .ok v => .done v
        | .error e => .fail e

/-- Registers the handler and runs it twice, has it replaced by the host, and fails for want of
another task. -/
private def replacing : Program :=
  [.expr (.callNamed "registerTask" [.str "t", .str "first", .lambda selfReplacing]),
    .expr (.callNamed "runTask" [.str "t"]), .expr (.callNamed "runTask" [.str "t"]),
    .expr (.callNamed "runTask" [.str "hire"]), .expr (.callNamed "runTask" [.str "t"]),
    .expr (.callNamed "runTask" [.str "gone"])]

private def replacingContext : Context :=
  ⟨"a", .ok ⟨.advanced, replacing⟩, {}, .idle⟩

private def withHiring : Session Unit :=
  registerTask { store := () } "hire" "" (.host hiring)

private def replaced : Context × Session Unit :=
  execute (.willing 60) withHiring replacingContext

private lemma candid_withHiring : withHiring.tasks.Candid Error.IsMissing := by
  have hhiring : (Handler.host hiring).Candid Error.IsMissing := by
    refine fun _ => .register (fun _ => .emit (.done _ _) _ _) (.ask fun list => ?_)
    refine .emit (.ask fun reply => ?_) _ _
    cases reply with
    | ok v => exact .done _ v
    | error e => exact .fail fun _ => rfl
  exact (candid_builtin Error.not_isMissing_thrown).put hhiring "hire" ""

end

end Session

end ScriptedNotes
