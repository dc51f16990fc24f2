import Mathlib.Tactic.Common
import ScriptedNotes.Proofs.Keyed
import ScriptedNotes.Proofs.Run.Candor

/-!
What runs have to do with tasks. A run may register tasks and invoke them, anywhere inside it, and
its procedures of the host may ask for the list of them; the rest of it neither asks for the tasks
nor touches them (`Quiet`). So every run has a log of its dealings with the tasks (`Deals`), and the
log accounts for it: the run leaves the tasks as the registrations of the log make them, each
invocation and each list found them as the dealings before it had left them (`Deals.accounted`), and
a task that the run does not invoke is nothing to it (`Deals.with_tasks`), also while that task's
own handler is running.
-/

namespace ScriptedNotes.Run

open Script (Compiled Expr Program Stmt)
open Exec

variable {σ α β : Type}

/-! ### Logs -/

/-- What a run has to do with tasks. -/
inductive Dealing (σ : Type) where
  | registered (name : String) (task : Task)
  /-- An invocation started in this state. -/
  | invoked (fuel : Nat) (name : String) (args : List Value) (m : Machine σ)
  /-- The list of all tasks was asked for in this state. -/
  | listed (m : Machine σ)

/-- The log has an invocation by this name. -/
def Invokes (name : String) (log : List (Dealing σ)) : Prop :=
  ∃ fuel args m, .invoked fuel name args m ∈ log

lemma Invokes.mono {name : String} {log log' : List (Dealing σ)} (h : Invokes name log)
    (hsub : log ⊆ log') : Invokes name log' := by
  obtain ⟨fuel, args, m, hmem⟩ := h
  exact ⟨fuel, args, m, hsub hmem⟩

/-- The log has a list of all tasks. -/
def Lists (log : List (Dealing σ)) : Prop :=
  ∃ m, .listed m ∈ log

lemma Lists.mono {log log' : List (Dealing σ)} (h : Lists log) (hsub : log ⊆ log') :
    Lists log' := by
  obtain ⟨m, hmem⟩ := h
  exact ⟨m, hsub hmem⟩

/-- The task that was registered last under a name. -/
def latest? (name : String) : List (Dealing σ) → Option Task
  | [] => none
  | .registered n task :: log => (latest? name log).or (if n = name then some task else none)
  | .invoked .. :: log | .listed _ :: log => latest? name log

/-- The tasks behind the registrations of a log. -/
def Registry.after (r : Registry) : List (Dealing σ) → Registry
  | [] => r
  | .registered name task :: log => after (Keyed.put name task r) log
  | .invoked .. :: log | .listed _ :: log => after r log

/-- Each invocation and each list of the log found the tasks that the registrations before it had
left. -/
def Registry.Explains (r : Registry) : List (Dealing σ) → Prop
  | [] => True
  | .registered name task :: log => Explains (Keyed.put name task r) log
  | .invoked _ _ _ m :: log | .listed m :: log => m.tasks = r ∧ Explains r log

section

variable (r : Registry) (name : String) (first rest log : List (Dealing σ))

lemma Registry.after_append : r.after (first ++ rest) = (r.after first).after rest := by
  induction first generalizing r with
  | nil => rfl
  | cons dealing first ih => cases dealing <;> exact ih _

lemma Registry.explains_append :
    r.Explains (first ++ rest) ↔ r.Explains first ∧ (r.after first).Explains rest := by
  induction first generalizing r with
  | nil => exact (iff_of_eq (true_and _)).symm
  | cons dealing first ih =>
    cases dealing with
    | registered n task => exact ih (Keyed.put n task r)
    | invoked | listed => exact (and_congr_right fun _ => ih r).trans and_assoc.symm

lemma latest?_eq_none_iff : latest? name log = none ↔ ∀ task, .registered name task ∉ log := by
  induction log with
  | nil => exact iff_of_true rfl fun _ => List.not_mem_nil
  | cons dealing log ih =>
    cases dealing with
    | registered n task =>
      rw [latest?, Option.or_eq_none_iff, ih]
      by_cases hn : n = name
      · exact iff_of_false (by simp [hn]) fun hnone => hnone task (hn ▸ List.mem_cons_self)
      · simp [hn, Ne.symm hn]
    | invoked | listed => simp [latest?, ih]

/-- A name leads to the task that was registered last under it. -/
lemma get?_after : Keyed.get? name (r.after log) = (latest? name log).or (Keyed.get? name r) := by
  induction log generalizing r with
  | nil => rfl
  | cons dealing log ih =>
    cases dealing with
    | registered n task =>
      rw [Registry.after, latest?, ih, Keyed.get?_put]
      by_cases hn : n = name <;> simp [hn]
    | invoked | listed => exact ih r

lemma ordered_after {r : Registry} (h : Keyed.Ordered r) : Keyed.Ordered (r.after log) := by
  induction log generalizing r with
  | nil => exact h
  | cons dealing log ih =>
    cases dealing with
    | registered n task => exact ih (h.put n task)
    | invoked | listed => exact ih h

end

/-! ### Runs and their logs -/

namespace Machine

/-- The same state with other tasks. -/
def withTasks (m : Machine σ) (r : Registry) : Machine σ :=
  { m with tasks := r }

@[simp]
lemma withTasks_tasks (m : Machine σ) (r : Registry) : (m.withTasks r).tasks = r :=
  rfl

end Machine

namespace Exec

/-- The computation neither asks for the tasks nor touches them. -/
def Quiet (x : Exec σ α) : Prop :=
  ∀ m r, x (m.withTasks r) = Prod.map id (·.withTasks r) (x m)

end Exec

/-- Does what a handler is for. -/
def Handler.run (S : Backend σ) (fuel : Nat) (args : List Value) : Handler → Exec σ Value
  | .script code frame => call S fuel (.function code frame) args
  | .host procedure _ => perform S (call S fuel) (invoke S fuel) (procedure args)

/-- The computation, begun in this state, deals with the tasks as the log says. -/
inductive Deals (S : Backend σ) : ∀ {α : Type}, Exec σ α → Machine σ → List (Dealing σ) → Prop
  | quiet {α : Type} {x : Exec σ α} {m : Machine σ} (hquiet : x.Quiet) : Deals S x m []
  | register (name : String) (task : Task) (m : Machine σ) :
      Deals S (register name task) m [.registered name task]
  | list (m : Machine σ) : Deals S listTasks m [.listed m]
  | found {fuel : Nat} {name : String} {args : List Value} {m : Machine σ} {task : Task}
      {log : List (Dealing σ)} (htask : Keyed.get? name m.tasks = some task)
      (hrun : Deals S (task.handler.run S fuel args) m log) :
      Deals S (invoke S (fuel + 1) name args) m (.invoked fuel name args m :: log)
  | missing {fuel : Nat} {name : String} {args : List Value} {m : Machine σ}
      (htask : Keyed.get? name m.tasks = none) :
      Deals S (invoke S (fuel + 1) name args) m [.invoked fuel name args m]
  | bind {α β : Type} {x : Exec σ α} {k : α → Exec σ β} {m m' : Machine σ} {a : α}
      {first rest : List (Dealing σ)} (hx : Deals S x m first) (hend : x m = (.value a, m'))
      (hk : Deals S (k a) m' rest) : Deals S (x >>= k) m (first ++ rest)
  | stopped {α β : Type} {x : Exec σ α} {k : α → Exec σ β} {m : Machine σ}
      {log : List (Dealing σ)} (hx : Deals S x m log) (hend : ∀ a, (x m).1 ≠ .value a) :
      Deals S (x >>= k) m log
  | attempt {α : Type} {x : Exec σ α} {m : Machine σ} {log : List (Dealing σ)}
      (hx : Deals S x m log) : Deals S (attempt x) m log
  | nested {α : Type} {x : Exec σ α} {m : Machine σ} {log : List (Dealing σ)}
      (hroom : m.depth < maxDepth) (hx : Deals S x m.deeper log) : Deals S (nested x) m log
  | refused {α : Type} {x : Exec σ α} {m : Machine σ} (hfull : maxDepth ≤ m.depth) :
      Deals S (nested x) m []

section

variable {S : Backend σ} {m : Machine σ}

/-- **An invocation runs the handler** that stands under the name when it starts, and fails when
none does. -/
theorem invoke_succ_eq (S : Backend σ) (fuel : Nat) (name : String) (args : List Value)
    (m : Machine σ) :
    invoke S (fuel + 1) name args m =
      match Keyed.get? name m.tasks with
      | some task => task.handler.run S fuel args m
      | none => (.error (.taskNotFound name), m) := by
  have htaskOf : ∀ k : Option Task → Exec σ Value,
      (taskOf? name >>= k) m = k (Keyed.get? name m.tasks) m := fun _ => rfl
  rw [invoke_eq, htaskOf]
  cases Keyed.get? name m.tasks with
  | none => rfl
  | some task =>
    obtain ⟨description, handler⟩ := task
    cases handler <;> rfl

lemma bind_of_value {x : Exec σ α} {k : α → Exec σ β} {m' : Machine σ} {a : α}
    (hend : x m = (.value a, m')) : (x >>= k) m = k a m' := by
  show Exec.bind x k m = k a m'
  rw [Exec.bind, hend]

/-- What is stopped by an error, or by its fuel, ends there. -/
lemma snd_bind_of_stopped {x : Exec σ α} (k : α → Exec σ β) (hend : ∀ a, (x m).1 ≠ .value a) :
    ((x >>= k) m).2 = (x m).2 := by
  show (Exec.bind x k m).2 = (x m).2
  unfold Exec.bind
  rcases hx : x m with ⟨a | e | _, m'⟩
  · exact absurd (by rw [hx]) (hend a)
  · rfl
  · rfl

lemma snd_attempt (x : Exec σ α) (m : Machine σ) : (attempt x m).2 = (x m).2 := by
  unfold attempt
  rcases x m with ⟨_ | _ | _, m'⟩ <;> rfl

lemma Exec.Quiet.tasks_eq {x : Exec σ α} (h : x.Quiet) (m : Machine σ) : (x m).2.tasks = m.tasks :=
  congrArg (·.2.tasks) (h m m.tasks)

/-! ### What a log says of its run -/

/-- **The log accounts for the run.** The tasks behind it are those that the log makes of the tasks
before it, and each invocation found what the dealings before it had left. -/
theorem Deals.accounted {x : Exec σ α} {log : List (Dealing σ)} (h : Deals S x m log) :
    (x m).2.tasks = m.tasks.after log ∧ m.tasks.Explains log := by
  induction h with
  | quiet hquiet => exact ⟨hquiet.tasks_eq _, trivial⟩
  | register name task m => exact ⟨rfl, trivial⟩
  | list m => exact ⟨rfl, rfl, trivial⟩
  | found htask hrun ih =>
    rw [invoke_succ_eq, htask]
    exact ⟨ih.1, rfl, ih.2⟩
  | missing htask =>
    rw [invoke_succ_eq, htask]
    exact ⟨rfl, rfl, trivial⟩
  | @bind _ _ x k m m' a first rest hx hend hk ihx ihk =>
    rw [hend] at ihx
    rw [bind_of_value hend, Registry.after_append, Registry.explains_append, ← ihx.1]
    exact ⟨ihk.1, ihx.2, ihk.2⟩
  | stopped hx hend ih =>
    rw [snd_bind_of_stopped _ hend]
    exact ih
  | attempt hx ih =>
    rw [snd_attempt]
    exact ih
  | nested hroom hx ih =>
    rw [nested_of_lt hroom]
    exact ih
  | refused hfull =>
    rw [nested_of_le hfull]
    exact ⟨rfl, trivial⟩

/-- **Tasks that a run does not invoke are nothing to it.** With other tasks the run is the same, as
long as those that it invokes are the same and it does not ask for the list. -/
theorem Deals.with_tasks {x : Exec σ α} {log : List (Dealing σ)} (h : Deals S x m log)
    {r : Registry} (hr : ∀ name, Invokes name log → Keyed.get? name r = Keyed.get? name m.tasks)
    (hlist : ¬ Lists log) :
    x (m.withTasks r) = Prod.map id (·.withTasks (r.after log)) (x m) := by
  induction h generalizing r with
  | quiet hquiet => exact hquiet _ r
  | register name task m => rfl
  | list m => exact absurd ⟨m, List.mem_cons_self⟩ hlist
  | @found fuel name args m task log htask hrun ih =>
    have hname : Keyed.get? name r = some task :=
      (hr name ⟨fuel, args, m, List.mem_cons_self⟩).trans htask
    rw [invoke_succ_eq, invoke_succ_eq, htask, Machine.withTasks_tasks, hname]
    exact ih (fun n hn => hr n (hn.mono (List.subset_cons_self _ _)))
      fun h => hlist (h.mono (List.subset_cons_self _ _))
  | @missing fuel name args m htask =>
    have hname : Keyed.get? name r = none :=
      (hr name ⟨fuel, args, m, List.mem_cons_self⟩).trans htask
    rw [invoke_succ_eq, invoke_succ_eq, htask, Machine.withTasks_tasks, hname]
    rfl
  | @bind _ _ x k m m' a first rest hx hend hk ihx ihk =>
    have hfirst : ∀ n, Invokes n first → Keyed.get? n r = Keyed.get? n m.tasks :=
      fun n hn => hr n (hn.mono (List.subset_append_left _ _))
    -- what was registered in between is the same with either tasks
    have hrest : ∀ n, Invokes n rest → Keyed.get? n (r.after first) = Keyed.get? n m'.tasks := by
      intro n hn
      have htasks : m'.tasks = m.tasks.after first := by
        rw [← hx.accounted.1, hend]
      rw [htasks, get?_after, get?_after, hr n (hn.mono (List.subset_append_right _ _))]
    have hlistFirst : ¬ Lists first := fun h => hlist (h.mono (List.subset_append_left _ _))
    have hlistRest : ¬ Lists rest := fun h => hlist (h.mono (List.subset_append_right _ _))
    have hreached : x (m.withTasks r) = (.value a, m'.withTasks (r.after first)) := by
      rw [ihx hfirst hlistFirst, hend]
      rfl
    rw [bind_of_value hreached, bind_of_value hend, ihk hrest hlistRest, Registry.after_append]
  | @stopped _ _ x k m log hx hend ih =>
    show Exec.bind x k (m.withTasks r) = Prod.map id _ (Exec.bind x k m)
    unfold Exec.bind
    rw [ih hr hlist]
    rcases hstop : x m with ⟨a | e | _, m'⟩
    · exact absurd (by rw [hstop]) (hend a)
    · rfl
    · rfl
  | @attempt _ x m log hx ih =>
    unfold Exec.attempt
    rw [ih hr hlist]
    rcases x m with ⟨_ | _ | _, m'⟩ <;> rfl
  | @nested _ x m log hroom hx ih =>
    have hroom' : (m.withTasks r).depth < maxDepth := hroom
    have hbody : x (m.withTasks r).deeper = _ := ih hr hlist
    rw [nested_of_lt hroom, nested_of_lt hroom', hbody]
    rfl
  | @refused _ x m hfull =>
    have hfull' : maxDepth ≤ (m.withTasks r).depth := hfull
    rw [nested_of_le hfull, nested_of_le hfull']
    rfl

end

/-! ### Every run has a log -/

/-- The computation, begun in this state, has a log. -/
def Logged (S : Backend σ) (x : Exec σ α) (m : Machine σ) : Prop :=
  ∃ log, Deals S x m log

section

variable {S : Backend σ} {m : Machine σ}

lemma Logged.bind {x : Exec σ α} {k : α → Exec σ β} (hx : Logged S x m)
    (hk : ∀ a m', x m = (.value a, m') → Logged S (k a) m') : Logged S (x >>= k) m := by
  obtain ⟨first, hfirst⟩ := hx
  rcases hend : x m with ⟨a | e | _, m'⟩
  · obtain ⟨rest, hrest⟩ := hk a m' hend
    exact ⟨first ++ rest, hfirst.bind hend hrest⟩
  · exact ⟨first, hfirst.stopped fun a h => by rw [hend] at h; cases h⟩
  · exact ⟨first, hfirst.stopped fun a h => by rw [hend] at h; cases h⟩

lemma Logged.attempt {x : Exec σ α} (hx : Logged S x m) : Logged S (attempt x) m := by
  obtain ⟨log, hlog⟩ := hx
  exact ⟨log, hlog.attempt⟩

lemma Logged.nested {x : Exec σ α} (hx : ∀ m, Logged S x m) : Logged S (nested x) m := by
  by_cases hroom : m.depth < maxDepth
  · obtain ⟨log, hlog⟩ := hx m.deeper
    exact ⟨log, hlog.nested hroom⟩
  · exact ⟨[], .refused (Nat.not_lt.1 hroom)⟩

/-- A step that has nothing to do with tasks. -/
lemma Exec.Quiet.logged {x : Exec σ α} (hx : x.Quiet) (S : Backend σ) (m : Machine σ) :
    Logged S x m :=
  ⟨[], .quiet hx⟩

end

/-- Runs with a log, as a correspondence: of a run with itself, whatever its frames and values. -/
def logging (S : Backend σ) : Correspondence σ where
  rename := id
  rel _ x _ := ∀ m, Logged S x m

lemma quiet_callStore (f : σ → Except Failure α × σ) (event : Except Failure α → Event) :
    (callStore f event).Quiet :=
  fun _ _ => rfl

lemma hosting_logging (S : Backend σ) : (logging S).Hosting S where
  pure _ _ := Quiet.logged (fun _ _ => rfl) S
  bind hx hk m := (hx m).bind fun a m' _ => hk a m'
  thrown _ _ := Quiet.logged (fun _ _ => rfl) S
  failed _ _ := Quiet.logged (fun _ _ => rfl) S
  unfinished _ := Quiet.logged (fun _ _ => rfl) S
  attempt hx m := (hx m).attempt
  nested hx _ := .nested hx
  endCall flow := by
    refine Quiet.logged (fun m r => ?_) S
    unfold endCall
    cases flow.isStray <;> rfl
  lookup _ _ := Quiet.logged (fun _ _ => rfl) S
  newFrame _ := Quiet.logged (fun _ _ => rfl) S
  declare _ _ _ _ := Quiet.logged (fun _ _ => rfl) S
  assign frame name v := by
    refine Quiet.logged (fun m r => ?_) S
    unfold assign
    have hheap : (m.withTasks r).heap = m.heap := rfl
    rw [hheap]
    cases m.heap.assignee? frame name <;> rfl
  register name _ _ _ m := ⟨_, .register name _ m⟩
  registerHost name _ _ _ _ m := ⟨_, .register name _ m⟩
  listTasks m := ⟨_, .list m⟩
  emit _ _ := Quiet.logged (fun _ _ => rfl) S
  clear := Quiet.logged (fun _ _ => rfl) S
  sleep _ := Quiet.logged (fun _ _ => rfl) S
  change c m := by
    refine Logged.bind ((quiet_callStore _ _).logged S m) fun reply m' _ => ?_
    cases reply <;> exact Quiet.logged (fun _ _ => rfl) S m'
  read path m := by
    refine Logged.bind ((quiet_callStore _ _).logged S m) fun reply m' _ => ?_
    cases reply <;> exact Quiet.logged (fun _ _ => rfl) S m'

section

variable (S : Backend σ) (fuel : Nat)

/-- Whatever is evaluated has a log. -/
theorem evaluatorLogged : (logging S).EvaluatorCorresponds S fuel := by
  have hC := hosting_logging S
  refine Correspondence.evaluatorCorresponds_of_invoke hC.toSteps
    (fun fuel ih name args m => ?_) fuel
  rcases htask : Keyed.get? name m.tasks with _ | ⟨description, handler⟩
  · exact ⟨_, .missing htask⟩
  have hrun : ∀ m, Logged S (handler.run S fuel args) m := by
    cases handler with
    | script code frame => exact ih.call (.function code frame) args
    | host procedure inRun => exact hC.perform ih.call ih.invoke (procedure args).renamed_id
  obtain ⟨log, hlog⟩ := hrun m
  exact ⟨_, .found htask hlog⟩

/-- The global frame of a program. -/
private def enterProgram : Exec σ FrameId := fun m =>
  (.value m.heap.root.1, m.mapHeap fun h => h.root.2)

lemma logged_runProgram (program : Program) (m : Machine σ) :
    Logged S (runProgram S fuel program) m := by
  have hprogram : runProgram S fuel program =
      (enterProgram >>= fun frame => execBlock S fuel frame program) := rfl
  have henter : Logged S enterProgram m := Quiet.logged (fun _ _ => rfl) S m
  rw [hprogram]
  exact henter.bind fun frame m' _ => (evaluatorLogged S fuel).block frame program m'

lemma logged_runScript (script : Compiled) (m : Machine σ) :
    Logged S (runScript S fuel script) m := by
  have hprogram : ∀ m, Logged S (runProgram S fuel script.program) m :=
    logged_runProgram S fuel script.program
  exact (hosting_logging S).runScript fuel script hprogram m

end

/-! ### Missing tasks -/

/-- The error says that a task is missing. -/
def Error.IsMissing (e : Error) : Prop :=
  ∃ name, e = .taskNotFound name

lemma Error.not_isMissing_thrown (message : String) : ¬ (Error.thrown message).IsMissing := by
  rintro ⟨_, h⟩
  cases h

/-- Where a run ends for want of a task, there must be none of that name. -/
def missing (σ : Type) : Account σ where
  concerns := Error.IsMissing
  Inv m := m.tasks.Candid Error.IsMissing
  explains m e := ∀ name, e = .taskNotFound name → Keyed.get? name m.tasks = none

lemma lawful_missing : (missing σ).Lawful where
  thrown := Error.not_isMissing_thrown
  unconcerned _ _ h name he := absurd ⟨name, he⟩ h
  missing _ _ hnone _ he := by
    cases he
    exact hnone
  candid _ h := h
  registered _ name task htask h := Registry.Candid.put h htask name task.description
  inward m m' htasks _ := by
    refine ⟨fun h => ?_, fun e h name he => ?_⟩
    · show m'.tasks.Candid Error.IsMissing
      rwa [htasks]
    · rw [htasks]
      exact h name he
  entered m m' event htasks _ := by
    refine ⟨fun h => ?_, fun _ f _ name he => ?_, fun _ e h name he => ?_⟩
    · show m'.tasks.Candid Error.IsMissing
      rwa [htasks]
    · cases he
    · rw [htasks]
      exact h name he

end ScriptedNotes.Run
