import Mathlib.Tactic.Common
import ScriptedNotes.Proofs.Run.Correspondence
import ScriptedNotes.Proofs.Run.Evaluation
import ScriptedNotes.Session

/-!
The run of a context, under a discipline and in correspondence with itself. It begins with a clear,
which may well establish what holds of every later state, so a discipline looks at the run from
behind it. Besides the steps of scripts it adds a global frame for the program and may refresh the
host's view of the store; what allows for both, and for scripts, allows for the whole run.
-/

namespace ScriptedNotes

open Run Run.Exec Run.Discipline Script

variable {σ : Type} {D : Discipline σ} {m : Machine σ}

/-! ### Disciplines -/

/-- A discipline that allows for what a session does besides running scripts. -/
structure AllowsSessions (D : Discipline σ) : Prop where
  root : ∀ m, D.Inv m →
    D.Leads m (m.mapHeap fun h => h.root.2) ∧ D.owns m.heap.root.2 m.heap.size
  refreshed : ∀ m s reply, D.Inv m →
    D.Leads m { m with store := s, journal := m.journal.push (.refreshed reply) }

/-- The host's view is refreshed. -/
lemma safe_refresh (hD : D.Lawful) (hsession : AllowsSessions D) (hook : Hook σ) :
    D.Safe m (refreshStep hook) fun _ _ => True := by
  have hcall : ∀ m' : Machine σ, D.Safe m' (callStore hook.refresh .refreshed) fun _ _ => True :=
    fun m' => safe_callStore fun s reply h => hsession.refreshed m' s reply h
  refine (hD.safe_emit _ _).bind fun m₁ _ _ _ => ?_
  refine (hD.safe_pause _).bind fun m₂ _ _ _ => ?_
  refine (hcall m₂).bind fun m₃ reply _ _ => ?_
  cases reply with
  | ok u => exact hD.safe_emit _ _
  | error f => exact hD.safe_emit _ _

/-- What a context does behind the clear that its run begins with. -/
theorem leads_contextRun (hD : D.Lawful) (hL : D.Liberal) (hsession : AllowsSessions D)
    (host : Host σ) (compiled : Except SyntaxError Compiled) (hclear : D.Inv (clear m).2) :
    D.Leads (clear m).2 (contextRun host compiled m).2 := by
  have hbehind : ∀ x : Exec σ Status, D.Safe (clear m).2 x (fun _ _ => True) →
      D.Leads (clear m).2 ((do clear; x : Exec σ Status) m).2 := fun x hx => (hx hclear).leads
  refine hbehind _ ?_
  cases compiled with
  | error e => exact (hD.safe_emit _ _).bind fun _ _ _ _ => safe_pure trivial
  | ok script =>
    refine (hD.safe_emit _ _).bind fun m₁ _ _ _ => ?_
    have hscript : D.Safe m₁ (runScript host.backend host.fuel script) fun _ _ => True :=
      safe_runScript hD hL host.backend host.fuel (hsession.root m₁)
    refine hscript.attempt.bind fun m₂ r _ _ => ?_
    cases r with
    | error e => exact (hD.safe_emit _ _).bind fun _ _ _ _ => safe_pure trivial
    | ok u =>
      refine (hD.safe_emit _ _).bind fun m₃ _ _ _ => ?_
      cases host.hook with
      | none => exact safe_pure trivial
      | some hook => exact (safe_refresh hD hsession hook).bind fun _ _ _ _ => safe_pure trivial

/-! ### Correspondences -/

section

variable {C : Correspondence σ}

/-- A refresh corresponds to itself where its pause and its call do. -/
lemma corresponds_refreshStep {S : Backend σ} (hC : C.Hosting S) {hook : Hook σ}
    (hpause : C.rel id (record (.slept hook.delay)) (record (.slept hook.delay)))
    (hcall : C.rel id (callStore hook.refresh .refreshed) (callStore hook.refresh .refreshed)) :
    C.rel id (refreshStep hook) (refreshStep hook) := by
  refine hC.bind (hC.emit _ _) fun _ => hC.bind hpause fun _ => hC.bind hcall fun reply => ?_
  cases reply with
  | ok u => exact hC.emit _ _
  | error f => exact hC.emit _ _

/-- The run of a context corresponds to itself where scripts and refreshes do. -/
theorem corresponds_contextRun {host : Host σ} (hC : C.Hosting host.backend)
    (hscript : ∀ script, C.rel id (runScript host.backend host.fuel script)
      (runScript host.backend host.fuel script))
    (hrefresh : ∀ hook : Hook σ, C.rel id (refreshStep hook) (refreshStep hook))
    (compiled : Except SyntaxError Compiled) :
    C.rel id (contextRun host compiled) (contextRun host compiled) := by
  have hend : ∀ status : Status, C.rel id (pure status) (pure status) := fun status =>
    hC.pure id status
  refine hC.bind hC.clear fun _ => ?_
  cases compiled with
  | error e => exact hC.bind (hC.emit _ _) fun _ => hend .failed
  | ok script =>
    refine hC.bind (hC.emit _ _) fun _ => hC.bind (hC.attempt (hscript script)) fun r => ?_
    cases r with
    | error e => exact hC.bind (hC.emit _ _) fun _ => hend .failed
    | ok u =>
      refine hC.bind (hC.emit _ _) fun _ => ?_
      cases host.hook with
      | none => exact hend .succeeded
      | some hook => exact hC.bind (hrefresh hook) fun _ => hend .succeeded

end

/-! ### Executions -/

namespace Session

/-- An execution is a run of the context from the session's state. -/
lemma execute_eq (host : Host σ) (s : Session σ) (c : Context) :
    ∃ m, m = (contextRun host c.compiled (s.machine c.id c.terminal)).2 ∧
      (s.execute host c).2 = s.resume m ∧ (s.execute host c).1.terminal = m.terminal ∧
      (s.execute host c).1.id = c.id := by
  refine ⟨_, rfl, ?_⟩
  unfold execute
  split <;> next heq => rw [heq]; exact ⟨rfl, rfl, rfl⟩

lemma runMany_cons (host : Host σ) (s : Session σ) (c : Context) (rest : List Context) :
    s.runMany host (c :: rest) =
      ((s.execute host c).1.report :: ((s.execute host c).2.runMany host rest).1,
        ((s.execute host c).2.runMany host rest).2) :=
  rfl

end Session

end ScriptedNotes
