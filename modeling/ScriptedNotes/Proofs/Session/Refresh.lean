import ScriptedNotes.Proofs.Run.Lookalike
import ScriptedNotes.Proofs.Session.Requests
import ScriptedNotes.Proofs.Workspace.Listing

/-!
Runs and refreshes. A run ends with a status before the host is told to refresh its view, and it is
told only of runs that succeeded, behind all calls of the script (`disciplined`). What comes of the
refresh is shown in the last line and nowhere else: sessions whose hooks reply otherwise do the same
(`refresh_is_advisory`).
-/

namespace ScriptedNotes

open Run Run.Exec Run.Discipline Script

variable {σ : Type}

/-! ### Calls and refreshes -/

/-- Whether this is a call of the store. -/
def Run.Event.isCall : Event → Bool
  | .changed _ _ | .read _ _ => true
  | _ => false

/-- Whether this is a refresh of the host's view. -/
def Run.Event.isRefresh : Event → Bool
  | .refreshed _ => true
  | _ => false

/-- The discipline of what never refreshes the host's view. -/
def unrefreshing (σ : Type) : Discipline σ :=
  .ofStates (fun m => ∀ e ∈ m.journal, e.isRefresh = false) (fun _ _ => True) (fun _ => trivial)
    fun _ _ _ _ _ => trivial

lemma unrefreshing_push {m m' : Machine σ} (h : (unrefreshing σ).Inv m) {e : Event}
    (he : e.isRefresh = false) (hjournal : m'.journal = m.journal.push e) :
    (unrefreshing σ).Leads m m' := by
  refine ⟨h, trivial, ?_⟩
  intro e' he'
  rw [hjournal] at he'
  rcases Array.mem_push.1 he' with he' | rfl
  · exact h e' he'
  · exact he

lemma unrefreshing_same {m m' : Machine σ} (h : (unrefreshing σ).Inv m)
    (hjournal : m'.journal = m.journal) : (unrefreshing σ).Leads m m' :=
  ⟨h, trivial, fun e he => h e (hjournal ▸ he)⟩

lemma laws_unrefreshing : (unrefreshing σ).StateLaws where
  inward _ _ h _ _ _ hjournal := unrefreshing_same h hjournal
  register _ _ _ _ h _ := unrefreshing_same h rfl
  line _ _ h := unrefreshing_push h rfl rfl
  cleared _ h := unrefreshing_push h rfl rfl
  slept _ _ h := unrefreshing_push h rfl rfl
  changed _ _ _ _ h := unrefreshing_push h rfl rfl
  read _ _ _ _ h := unrefreshing_push h rfl rfl

/-- A script does not refresh the host's view. -/
lemma unrefreshing_runScript (S : Backend σ) (fuel : Nat) (script : Compiled) {m : Machine σ}
    (h : (unrefreshing σ).Inv m) : (unrefreshing σ).Inv (runScript S fuel script m).2 :=
  (safe_runScript (lawful_ofStates laws_unrefreshing) (liberal_ofStates laws_unrefreshing) S fuel
    (root_ofStates laws_unrefreshing m) h).leads.after

/-! ### One run -/

/-- A host that tells a hook of the runs that succeed. -/
abbrev hooked (S : Backend σ) (fuel : Nat) (hook : Hook σ) : Host σ :=
  ⟨S, some hook, fuel⟩

/-- The state in which the script of a context begins. -/
def begun (m : Machine σ) : Machine σ :=
  (emit .system "> Starting automation..." (clear m).2).2

/-- The line that tells how a refresh went. -/
def refreshLine : Except Failure Unit → Line
  | .ok () => ⟨.success, "> Workspace refreshed"⟩
  | .error f => ⟨.error, "> Failed to refresh workspace: " ++ f.message⟩

/-- The state behind a refresh before it is told how it went. -/
def refreshing (hook : Hook σ) (m : Machine σ) : Machine σ :=
  (callStore hook.refresh .refreshed
    (record (.slept hook.delay) (emit .system "> Refreshing workspace..." m).2).2).2

lemma refreshStep_eq (hook : Hook σ) (m : Machine σ) :
    refreshStep hook m =
      (.value (), (emit (refreshLine (hook.refresh m.store).1).kind
        (refreshLine (hook.refresh m.store).1).text (refreshing hook m)).2) := by
  have hstep : refreshStep hook m =
      (match (hook.refresh m.store).1 with
        | .ok () => emit .success "> Workspace refreshed"
        | .error f => emit .error ("> Failed to refresh workspace: " ++ f.message) :
        Exec σ Unit) (refreshing hook m) := rfl
  rw [hstep]
  cases (hook.refresh m.store).1 <;> rfl

/-- A run that succeeded, with what is told of it and of the refresh. -/
def finished (hook : Hook σ) (m : Machine σ) : Machine σ :=
  (emit (refreshLine (hook.refresh m.store).1).kind (refreshLine (hook.refresh m.store).1).text
    (refreshing hook (emit .success "> Automation completed successfully" m).2)).2

/-- What follows a script, by how it ended. -/
def afterScript (hook : Hook σ) : Except Run.Error Unit → Exec σ Status
  | .ok () => do
    emit .success "> Automation completed successfully"
    refreshStep hook
    return .succeeded
  | .error e => do
    emit .error ("> " ++ e.message)
    return .failed

lemma afterScript_ok (hook : Hook σ) (m : Machine σ) :
    afterScript hook (.ok ()) m = (.value .succeeded, finished hook m) := by
  show Exec.bind (refreshStep hook) _ (emit .success "> Automation completed successfully" m).2 = _
  unfold Exec.bind
  rw [refreshStep_eq]
  rfl

/-- A context runs its script and then says how it ended. -/
lemma contextRun_ok (S : Backend σ) (fuel : Nat) (hook : Hook σ) (script : Compiled)
    (m : Machine σ) :
    contextRun (hooked S fuel hook) (.ok script) m =
      match runScript S fuel script (begun m) with
      | (.value (), m') => (.value .succeeded, finished hook m')
      | (.error e, m') => (.value .failed, (emit .error ("> " ++ e.message) m').2)
      | (.unfinished, m') => (.unfinished, m') := by
  have hrun : contextRun (hooked S fuel hook) (.ok script) m =
      Exec.bind (attempt (runScript S fuel script)) (afterScript hook) (begun m) := rfl
  rw [hrun]
  unfold Exec.bind attempt
  rcases runScript S fuel script (begun m) with ⟨r, m'⟩
  cases r with
  | value u => exact afterScript_ok hook m'
  | error e => rfl
  | unfinished => rfl

lemma contextRun_error (host : Host σ) (e : SyntaxError) (m : Machine σ) :
    contextRun host (.error e) m =
      (.value .failed, (emit .error ("> " ++ e.message) (clear m).2).2) :=
  rfl

/-- What happens behind the last step of a script that succeeded. -/
lemma journal_finished (hook : Hook σ) (m : Machine σ) :
    (finished hook m).journal.toList = m.journal.toList ++
      [.line m.context ⟨.success, "> Automation completed successfully"⟩,
        .line m.context ⟨.system, "> Refreshing workspace..."⟩, .slept hook.delay,
        .refreshed (hook.refresh m.store).1,
        .line m.context (refreshLine (hook.refresh m.store).1)] := by
  have hpushes : (finished hook m).journal = ((((m.journal.push
      (.line m.context ⟨.success, "> Automation completed successfully"⟩)).push
      (.line m.context ⟨.system, "> Refreshing workspace..."⟩)).push (.slept hook.delay)).push
      (.refreshed (hook.refresh m.store).1)).push
      (.line m.context (refreshLine (hook.refresh m.store).1)) := rfl
  rw [hpushes]
  simp

lemma unrefreshing_clear (s : Session σ) (id : String) :
    (unrefreshing σ).Inv (clear (s.machine id {})).2 :=
  (laws_unrefreshing.cleared _ fun e he => (Array.not_mem_empty e he).elim).after

lemma unrefreshing_begun (s : Session σ) (id : String) :
    (unrefreshing σ).Inv (begun (s.machine id {})) :=
  (laws_unrefreshing.line _ _ (unrefreshing_clear s id)).after

namespace Turn

/-- How the script of a turn ends. -/
def scriptEnd (host : Host σ) (t : Turn σ) (script : Compiled) : Result Unit :=
  (runScript host.backend host.fuel script (begun (t.session.machine t.context.id {}))).1

/-- The script of a turn ends within the fuel, if there is one. -/
def Ends (host : Host σ) (t : Turn σ) : Prop :=
  ∀ script, t.context.compiled = .ok script → t.scriptEnd host script ≠ .unfinished

/-- The status that the end of its script gives a turn. -/
def status (host : Host σ) (t : Turn σ) : Status :=
  match t.context.compiled with
  | .error _ => .failed
  | .ok script =>
    match t.scriptEnd host script with
    | .value () => .succeeded
    | .error _ => .failed
    | .unfinished => .running

section

variable (host : Host σ) (t : Turn σ)

lemma status_ne_idle : t.status host ≠ .idle := by
  unfold status
  split
  · exact Status.noConfusion
  · split <;> exact Status.noConfusion

lemma status_eq_running_iff : t.status host = .running ↔ ¬ t.Ends host := by
  unfold status Ends
  cases t.context.compiled with
  | error e => simp
  | ok script => cases hend : t.scriptEnd host script <;> simp [hend]

lemma status_settled (h : t.Ends host) :
    t.status host = .succeeded ∨ t.status host = .failed := by
  cases hstatus : t.status host with
  | idle => exact (t.status_ne_idle host hstatus).elim
  | running => exact ((t.status_eq_running_iff host).1 hstatus h).elim
  | succeeded => exact .inl rfl
  | failed => exact .inr rfl

lemma status_eq_succeeded_iff : t.status host = .succeeded ↔
    ∃ script, t.context.compiled = .ok script ∧ t.scriptEnd host script = .value () := by
  unfold status
  cases t.context.compiled with
  | error e => simp
  | ok script => cases hend : t.scriptEnd host script <;> simp [hend]

lemma status_eq_failed_iff : t.status host = .failed ↔
    (∃ e, t.context.compiled = .error e) ∨
      ∃ script e, t.context.compiled = .ok script ∧ t.scriptEnd host script = .error e := by
  unfold status
  cases t.context.compiled with
  | error e => simp
  | ok script => cases hend : t.scriptEnd host script <;> simp [hend]

lemma report_eq : t.report host =
    match contextRun host t.context.compiled (t.session.machine t.context.id {}) with
    | (.value status, m) => ⟨t.context.id, status, m.terminal⟩
    | (.error _, m) => ⟨t.context.id, .failed, m.terminal⟩
    | (.unfinished, m) => ⟨t.context.id, .running, m.terminal⟩ := by
  unfold report Session.execute
  rw [Session.contextRun_machine]
  rcases contextRun host t.context.compiled (t.session.machine t.context.id {}) with ⟨r, m⟩
  cases r <;> rfl

end

variable (S : Backend σ) (fuel : Nat) (hook : Hook σ) (t : Turn σ)

lemma status_report : (t.report (hooked S fuel hook)).status = t.status (hooked S fuel hook) := by
  rw [report_eq]
  unfold status scriptEnd
  cases t.context.compiled with
  | error e => rfl
  | ok script =>
    rw [contextRun_ok]
    dsimp only [hooked]
    rcases runScript S fuel script (begun (t.session.machine t.context.id {})) with ⟨r, m⟩
    cases r <;> rfl

/-- A turn that is refreshed ends with that. -/
lemma events_of_succeeded (h : t.status (hooked S fuel hook) = .succeeded) :
    ∃ m, (unrefreshing σ).Inv m ∧
      t.events (hooked S fuel hook) = (finished hook m).journal.toList := by
  obtain ⟨script, hcompiled, hend⟩ := (t.status_eq_succeeded_iff _).1 h
  have hquiet := unrefreshing_runScript S fuel script (unrefreshing_begun t.session t.context.id)
  unfold scriptEnd at hend
  unfold events
  rw [hcompiled, contextRun_ok]
  rcases hrun : runScript S fuel script (begun (t.session.machine t.context.id {})) with ⟨r, m⟩
  simp only [hrun] at hend hquiet
  subst hend
  exact ⟨m, hquiet, rfl⟩

lemma unrefreshing_of_not_succeeded (h : t.status (hooked S fuel hook) ≠ .succeeded) :
    (unrefreshing σ).Inv (contextRun (hooked S fuel hook) t.context.compiled
      (t.session.machine t.context.id {})).2 := by
  unfold status scriptEnd at h
  cases hcompiled : t.context.compiled with
  | error e =>
    exact (laws_unrefreshing.line _ _ (unrefreshing_clear t.session t.context.id)).after
  | ok script =>
    have hquiet := unrefreshing_runScript S fuel script (unrefreshing_begun t.session t.context.id)
    rw [hcompiled] at h
    rw [contextRun_ok]
    rcases hrun : runScript S fuel script (begun (t.session.machine t.context.id {})) with ⟨r, m⟩
    simp only [hrun] at h hquiet
    cases r with
    | value u => exact (h rfl).elim
    | error e => exact (laws_unrefreshing.line _ _ hquiet).after
    | unfinished => exact hquiet

/-- What a turn shows and does, by how its script ends. -/
structure Disciplined (host : Host σ) (t : Turn σ) : Prop where
  not_idle : (t.report host).status ≠ .idle
  settled : t.Ends host → (t.report host).status = .succeeded ∨ (t.report host).status = .failed
  running_iff : (t.report host).status = .running ↔ ¬ t.Ends host
  succeeded_iff : (t.report host).status = .succeeded ↔
    ∃ script, t.context.compiled = .ok script ∧ t.scriptEnd host script = .value ()
  failed_iff : (t.report host).status = .failed ↔
    (∃ e, t.context.compiled = .error e) ∨
      ∃ script e, t.context.compiled = .ok script ∧ t.scriptEnd host script = .error e
  /-- A run that succeeded is followed by one refresh, and no call of the store is behind it. -/
  refreshed : (t.report host).status = .succeeded →
    ∃ before reply after, t.events host = before ++ .refreshed reply :: after ∧
      (∀ e ∈ before, e.isRefresh = false) ∧
      ∀ e ∈ after, e.isRefresh = false ∧ e.isCall = false
  unrefreshed : (t.report host).status ≠ .succeeded → ∀ e ∈ t.events host, e.isRefresh = false

/-- **A turn is refreshed behind its calls, and only if its script succeeded.** -/
theorem disciplined : t.Disciplined (hooked S fuel hook) where
  not_idle := by
    rw [status_report]
    exact t.status_ne_idle _
  settled h := by
    rw [status_report]
    exact t.status_settled _ h
  running_iff := by
    rw [status_report]
    exact t.status_eq_running_iff _
  succeeded_iff := by
    rw [status_report]
    exact t.status_eq_succeeded_iff _
  failed_iff := by
    rw [status_report]
    exact t.status_eq_failed_iff _
  refreshed hsucceeded := by
    rw [status_report] at hsucceeded
    obtain ⟨m, hquiet, hevents⟩ := t.events_of_succeeded S fuel hook hsucceeded
    rw [hevents, journal_finished]
    have htold : ∀ e ∈ [Event.line m.context ⟨.success, "> Automation completed successfully"⟩,
        .line m.context ⟨.system, "> Refreshing workspace..."⟩, .slept hook.delay],
        e.isRefresh = false := by
      simp [Event.isRefresh]
    refine ⟨m.journal.toList ++ _, (hook.refresh m.store).1,
      [.line m.context (refreshLine (hook.refresh m.store).1)], ?_,
      List.forall_mem_append.2 ⟨fun e he => hquiet e (Array.mem_toList_iff.1 he), htold⟩, ?_⟩
    · simp
    · simp [Event.isRefresh, Event.isCall]
  unrefreshed hne e he := by
    rw [status_report] at hne
    exact t.unrefreshing_of_not_succeeded S fuel hook hne e (Array.mem_toList_iff.1 he)

end Turn

/-! ### Hooks that reply otherwise -/

/-- Sessions in which scripts do the same: they have the same tasks and frames, and stores that
are related. -/
structure Session.Resembles (R : σ → σ → Prop) (s s' : Session σ) : Prop where
  store : R s.store s'.store
  tasks : s'.tasks = s.tasks
  heap : s'.heap = s.heap

/-- Reports that tell the same but for the last line of a run that succeeded. -/
structure Report.SameButLast (r r' : Report) : Prop where
  id : r'.id = r.id
  status : r'.status = r.status
  terminal : r.status ≠ .succeeded → r'.terminal = r.terminal
  last : r.status = .succeeded → ∃ (shown : Terminal) (line line' : Line),
    r.terminal = shown.push line ∧ r'.terminal = shown.push line'

/-- The calls of the store in a turn. -/
def Turn.calls (host : Host σ) (t : Turn σ) : List Event :=
  (t.events host).filter Event.isCall

/-- The ends of two runs of a context that differ in what came of the refresh. -/
structure EndsAlike (R : σ → σ → Prop) (p q : Result Status × Machine σ) : Prop where
  status : q.1 = p.1
  store : R p.2.store q.2.store
  tasks : q.2.tasks = p.2.tasks
  heap : q.2.heap = p.2.heap
  calls : q.2.journal.toList.filter Event.isCall = p.2.journal.toList.filter Event.isCall
  terminal : p.1 ≠ .value .succeeded → q.2.terminal = p.2.terminal
  last : p.1 = .value .succeeded → ∃ (shown : Terminal) (line line' : Line),
    p.2.terminal = shown.push line ∧ q.2.terminal = shown.push line'

section

variable {R : σ → σ → Prop} {m n : Machine σ}

/-- A run without a refresh. -/
lemma EndsAlike.of_sameBut {r : Result Status} (hr : r ≠ .value .succeeded)
    (h : m.SameBut R n) : EndsAlike R (r, m) (r, n) where
  status := rfl
  store := h.store
  tasks := by rw [h.rest]
  heap := by rw [h.rest]
  calls := by rw [h.rest]
  terminal _ := by rw [h.rest]
  last he := (hr he).elim

lemma sameBut_emit (h : m.SameBut R n) (kind : LineKind) (text : String) :
    (emit kind text m).2.SameBut R (emit kind text n).2 :=
  ⟨h.store, by rw [h.rest]; rfl⟩

lemma sameBut_clear (h : m.SameBut R n) : (clear m).2.SameBut R (clear n).2 :=
  ⟨h.store, by rw [h.rest]; rfl⟩

variable {S : Backend σ} {hook hook' : Hook σ}

/-- A refresh is shown in the last line. -/
lemma endsAlike_finished
    (hhooks : ∀ x y, R x y → R (hook.refresh x).2 (hook'.refresh y).2) (h : m.SameBut R n) :
    EndsAlike R (.value .succeeded, finished hook m) (.value .succeeded, finished hook' n) where
  status := rfl
  store := hhooks _ _ h.store
  tasks := show n.tasks = m.tasks by rw [h.rest]
  heap := show n.heap = m.heap by rw [h.rest]
  calls := by
    have hjournal : n.journal = m.journal := by rw [h.rest]
    rw [journal_finished, journal_finished, List.filter_append, List.filter_append, hjournal]
    rfl
  terminal hne := (hne rfl).elim
  last _ := by
    have hterminal : n.terminal = m.terminal := by rw [h.rest]
    refine ⟨(m.terminal.push ⟨.success, "> Automation completed successfully"⟩).push
      ⟨.system, "> Refreshing workspace..."⟩, refreshLine (hook.refresh m.store).1,
      refreshLine (hook'.refresh n.store).1, rfl, ?_⟩
    rw [← hterminal]
    rfl

variable (hS : S.CannotTell R) (fuel : Nat)
  (hhooks : ∀ x y, R x y → R (hook.refresh x).2 (hook'.refresh y).2)

include hS hhooks

/-- A context runs alike on stores that look the same to its script, whatever the hooks reply. -/
theorem endsAlike_contextRun (compiled : Except SyntaxError Compiled) (h : m.SameBut R n) :
    EndsAlike R (contextRun (hooked S fuel hook) compiled m)
      (contextRun (hooked S fuel hook') compiled n) := by
  cases compiled with
  | error e =>
    rw [contextRun_error, contextRun_error]
    exact .of_sameBut (by simp) (sameBut_emit (sameBut_clear h) _ _)
  | ok script =>
    have hbegun : (begun m).SameBut R (begun n) := sameBut_emit (sameBut_clear h) _ _
    obtain ⟨hend, hafter⟩ := lookalike_runScript hS fuel script _ _ hbegun
    rw [contextRun_ok, contextRun_ok]
    rcases hr : runScript S fuel script (begun m) with ⟨r, m'⟩
    rcases hr' : runScript S fuel script (begun n) with ⟨r', n'⟩
    rw [hr, hr'] at hend hafter
    obtain rfl : r' = r.map id := hend
    cases r with
    | value u => exact endsAlike_finished hhooks hafter
    | error e => exact .of_sameBut (by simp) (sameBut_emit hafter _ _)
    | unfinished => exact .of_sameBut (by simp) hafter

namespace Session

variable {s s' : Session σ}

omit hS hhooks in
lemma Resembles.machine (h : s.Resembles R s') (id : String) :
    (s.machine id {}).SameBut R (s'.machine id {}) := by
  refine ⟨h.store, ?_⟩
  unfold Session.machine
  rw [h.tasks, h.heap]

/-- The same context takes its turn in two sessions. -/
lemma Resembles.turn (h : s.Resembles R s') (c : Context) :
    Report.SameButLast (Turn.report (hooked S fuel hook) ⟨s, c⟩)
        (Turn.report (hooked S fuel hook') ⟨s', c⟩) ∧
      Turn.calls (hooked S fuel hook) ⟨s, c⟩ = Turn.calls (hooked S fuel hook') ⟨s', c⟩ ∧
      (s.execute (hooked S fuel hook) c).2.Resembles R (s'.execute (hooked S fuel hook') c).2 := by
  -- report and session are read off the end of the run, which is alike in both sessions
  have halike := endsAlike_contextRun hS fuel hhooks c.compiled (h.machine c.id)
  obtain ⟨m, hm, hsession, -, -⟩ := execute_eq (hooked S fuel hook) s c
  obtain ⟨n, hn, hsession', -, -⟩ := execute_eq (hooked S fuel hook') s' c
  rw [contextRun_machine] at hm hn
  refine ⟨?_, halike.calls.symm, ?_⟩
  · rw [Turn.report_eq, Turn.report_eq]
    dsimp only
    rcases hr : contextRun (hooked S fuel hook) c.compiled (s.machine c.id {}) with ⟨r, m'⟩
    rcases hr' : contextRun (hooked S fuel hook') c.compiled (s'.machine c.id {}) with ⟨r', n'⟩
    rw [hr, hr'] at halike
    obtain rfl : r' = r := halike.status
    cases r' with
    | value status =>
      refine ⟨rfl, rfl, fun hne => halike.terminal fun he => hne ?_, fun he => halike.last ?_⟩
      · cases he; rfl
      · exact congrArg Result.value he
    | error e => exact ⟨rfl, rfl, fun _ => halike.terminal (by simp), fun he => by cases he⟩
    | unfinished => exact ⟨rfl, rfl, fun _ => halike.terminal (by simp), fun he => by cases he⟩
  · rw [hsession, hsession', hm, hn]
    exact ⟨halike.store, halike.tasks, halike.heap⟩

/-- The same contexts take their turns in two sessions. -/
theorem Resembles.turns (contexts : List Context) (h : s.Resembles R s') :
    List.Forall₂ (fun t t' =>
        Report.SameButLast (Turn.report (hooked S fuel hook) t)
          (Turn.report (hooked S fuel hook') t') ∧
        Turn.calls (hooked S fuel hook) t = Turn.calls (hooked S fuel hook') t')
      (s.turns (hooked S fuel hook) contexts) (s'.turns (hooked S fuel hook') contexts) ∧
    (s.runMany (hooked S fuel hook) contexts).2.Resembles R
      (s'.runMany (hooked S fuel hook') contexts).2 := by
  induction contexts generalizing s s' with
  | nil => exact ⟨.nil, h⟩
  | cons c rest ih =>
    obtain ⟨hreport, hcalls, hafter⟩ := h.turn hS fuel hhooks c
    obtain ⟨hrest, hend⟩ := ih hafter
    exact ⟨.cons ⟨hreport, hcalls⟩ hrest, hend⟩

end Session

end

/-! ### Whole sessions -/

/-- The turns that contexts take while requests are served. -/
def Desk.turns (host : Host σ) (d : Desk σ) (requests : List Session.Request) : List (Turn σ) :=
  d.session.turns host (contextsOf (d.kept.map Context.fresh) requests)

/-- All that is reported and done is reported and done in turns, and these are disciplined. -/
structure Desk.Served (host : Host σ) (d : Desk σ) (requests : List Session.Request) : Prop where
  reports : (d.serveAll host requests).1 = (d.turns host requests).map (Turn.report host)
  journal : (d.serveAll host requests).2.session.journal.toList =
    d.session.journal.toList ++ (d.turns host requests).flatMap (Turn.events host)
  disciplined : ∀ t ∈ d.turns host requests, t.Disciplined host

/-- Desks with the same contexts, in whose sessions scripts do the same. -/
structure Desk.Resembles (R : σ → σ → Prop) (d d' : Desk σ) : Prop where
  session : d.session.Resembles R d'.session
  kept : d'.kept.map Context.fresh = d.kept.map Context.fresh

/-- Two desks serve the same requests alike, but for the last lines of runs that succeeded. -/
structure Desk.ServeAlike (R : σ → σ → Prop) (host host' : Host σ) (d d' : Desk σ)
    (requests : List Session.Request) : Prop where
  reports : List.Forall₂ Report.SameButLast (d.serveAll host requests).1
    (d'.serveAll host' requests).1
  calls : (d'.turns host' requests).map (Turn.calls host') =
    (d.turns host requests).map (Turn.calls host)
  session : (d.serveAll host requests).2.session.Resembles R
    (d'.serveAll host' requests).2.session

namespace Desk

variable (host : Host σ) (d : Desk σ) (requests : List Session.Request)

/-- Requests are a run of contexts that never ran. -/
lemma serveAll_fresh :
    (d.serveAll host requests).1 =
        (d.session.runMany host (contextsOf (d.kept.map Context.fresh) requests)).1 ∧
      (d.serveAll host requests).2.session =
        (d.session.runMany host (contextsOf (d.kept.map Context.fresh) requests)).2 := by
  have hkeeps : d.Keeps (d.kept.map Context.fresh) := by
    unfold Keeps
    rw [List.map_map]
    rfl
  exact serveAll_eq host requests hkeeps

lemma served (S : Backend σ) (fuel : Nat) (hook : Hook σ) :
    d.Served (hooked S fuel hook) requests := by
  obtain ⟨hreports, hsession⟩ := d.serveAll_fresh (hooked S fuel hook) requests
  obtain ⟨hturns, hjournal⟩ := Session.runMany_eq_turns (hooked S fuel hook) d.session
    (contextsOf (d.kept.map Context.fresh) requests)
  rw [← hreports] at hturns
  rw [← hsession] at hjournal
  exact ⟨hturns, hjournal, fun t _ => t.disciplined S fuel hook⟩

variable {d} {R : σ → σ → Prop} {d' : Desk σ} {S : Backend σ} {hook hook' : Hook σ}

lemma serveAlike (hS : S.CannotTell R) (fuel : Nat)
    (hhooks : ∀ x y, R x y → R (hook.refresh x).2 (hook'.refresh y).2) (h : d.Resembles R d') :
    ServeAlike R (hooked S fuel hook) (hooked S fuel hook') d d' requests := by
  obtain ⟨hreports, hsession⟩ := d.serveAll_fresh (hooked S fuel hook) requests
  obtain ⟨hreports', hsession'⟩ := d'.serveAll_fresh (hooked S fuel hook') requests
  obtain ⟨hturns, hafter⟩ := h.session.turns hS fuel hhooks
    (contextsOf (d.kept.map Context.fresh) requests)
  rw [h.kept] at hreports' hsession'
  refine ⟨?_, ?_, ?_⟩
  · rw [hreports, hreports', (Session.runMany_eq_turns _ _ _).1, (Session.runMany_eq_turns _ _ _).1,
      List.forall₂_map_left_iff, List.forall₂_map_right_iff]
    exact hturns.imp fun _ _ ht => ht.1
  · unfold Desk.turns
    rw [h.kept, ← List.forall₂_eq_eq_eq, List.forall₂_map_left_iff, List.forall₂_map_right_iff]
    exact (hturns.imp fun _ _ ht => ht.2).flip.imp fun _ _ ht => ht.symm
  · rw [hsession, hsession']
    exact hafter

end Desk

/-- **Only a run that succeeded is refreshed, once and behind its calls, and what comes of it is
told in a last line and nowhere else.** Whatever is asked of a session, all that it reports and does
is reported and done in turns; a turn that ends has succeeded or failed, and has succeeded just when
its script compiled and ran to its end (only a run out of fuel is left running). When the hook is
replaced by another one, and scripts cannot tell what the two leave behind, the same requests come
to the same calls, statuses and lines but for the last lines of the runs that succeeded. If the two
leave the same behind, `R` is equality and the stores at the end are the same. -/
theorem refresh_is_advisory (S : Backend σ) (fuel : Nat) (hook : Hook σ) (d : Desk σ)
    (requests : List Session.Request) :
    d.Served (hooked S fuel hook) requests ∧
      ∀ (R : σ → σ → Prop) (hook' : Hook σ) (d' : Desk σ), S.CannotTell R →
        (∀ x y, R x y → R (hook.refresh x).2 (hook'.refresh y).2) → d.Resembles R d' →
        Desk.ServeAlike R (hooked S fuel hook) (hooked S fuel hook') d d' requests :=
  ⟨d.served requests S fuel hook,
    fun _ _ _ hS hhooks h => Desk.serveAlike requests hS fuel hhooks h⟩

/-- A session in a workspace without files. -/
private def emptyDesk : Desk Site where
  session.store :=
    ⟨⟨⟨"/desk"⟩, {}, ⟨none, none⟩⟩, ⟨.folder [("desk", .folder [])], []⟩⟩

/-- Lists the workspace anew. -/
private def listingHook : Hook Site :=
  ⟨20, Site.refresh⟩

/-- Leaves the old listing and fails. -/
private def failingHook : Hook Site :=
  ⟨20, fun s => (.error ⟨["listing failed"]⟩, s)⟩

/-- Lists the workspace anew and yet fails. -/
private def complainingHook : Hook Site :=
  ⟨20, fun s => (.error ⟨["listing failed"]⟩, s.refresh.2)⟩

/-- A context that runs three times, sources that do not compile or are turned down, and a note. -/
private def mixedRequests : List Session.Request :=
  [.keep "a" "create notes.txt".toList, .execute 0, .source "b" "let f = =>".toList,
    .source "c" "delete ../x".toList, .many [0, 0],
    .note ":::automation\nlet f = =>\n:::\n:::automation\nprint 1\n:::".toList]

theorem refresh_is_advisory_failing :
    Site.backend.CannotTell Site.SameButListing ∧
      (∀ x y, x.SameButListing y →
        (listingHook.refresh x).2.SameButListing (failingHook.refresh y).2) ∧
      emptyDesk.Resembles Site.SameButListing emptyDesk ∧
      (emptyDesk.serveAll (hooked Site.backend 40 listingHook) mixedRequests).1.map
          (fun r => (r.id, r.status)) =
        [("a", .succeeded), ("c", .failed), ("a", .succeeded), ("a", .succeeded),
          ("automation-0", .failed), ("automation-1", .succeeded)] ∧
      emptyDesk.Served (hooked Site.backend 40 listingHook) mixedRequests ∧
      Desk.ServeAlike Site.SameButListing (hooked Site.backend 40 listingHook)
        (hooked Site.backend 40 failingHook) emptyDesk emptyDesk mixedRequests ∧
      Desk.ServeAlike (· = ·) (hooked Site.backend 40 listingHook)
        (hooked Site.backend 40 complainingHook) emptyDesk emptyDesk mixedRequests := by
  have hhooks : ∀ x y, x.SameButListing y →
      (listingHook.refresh x).2.SameButListing (failingHook.refresh y).2 :=
    fun x y h => h.congr (Site.sameButListing_refresh x) rfl
  have hdesk : emptyDesk.Resembles Site.SameButListing emptyDesk := ⟨⟨rfl, rfl, rfl⟩, rfl⟩
  obtain ⟨hserved, hadvisory⟩ :=
    refresh_is_advisory Site.backend 40 listingHook emptyDesk mixedRequests
  exact ⟨Site.cannotTell_backend, hhooks, hdesk, by decide +kernel, hserved,
    hadvisory _ failingHook emptyDesk Site.cannotTell_backend hhooks hdesk,
    hadvisory _ complainingHook emptyDesk (Run.Backend.cannotTell_eq _)
      (fun _ _ h => congrArg (fun s => s.refresh.2) h) ⟨⟨rfl, rfl, rfl⟩, rfl⟩⟩

end ScriptedNotes
