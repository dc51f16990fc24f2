import ScriptedNotes.Proofs.Session.Isolation
import ScriptedNotes.Proofs.Session.Stream

/-!
Contexts without a script. A context whose source does not compile has nothing to run: its terminal
is emptied and gets the error, and that is all that becomes of it. The frames that no task of a
script needs any more are given up there as by every run, which no later run can tell. So such
contexts may be left out of a batch, wherever they stand in it (`uncompiled_contexts_are_inert`).
-/

namespace ScriptedNotes

open Run Run.Exec Script

variable {σ : Type} (host : Host σ)

/-- The calls of the store and the refreshes, and the pauses between them: all that happens but is
no output. -/
def Run.actsOf (events : List Event) : List Event :=
  events.filter (·.sender?.isNone)

lemma Run.actsOf_append (events events' : List Event) :
    actsOf (events ++ events') = actsOf events ++ actsOf events' := by
  simp [actsOf]

/-- Whether there is a script to run. -/
def Context.compiles (c : Context) : Bool :=
  match c.compiled with
  | .ok _ => true
  | .error _ => false

/-- The only line of a context without a script. -/
def compileLine (e : SyntaxError) : Line :=
  ⟨.error, "> " ++ e.message⟩

/-- The report on a context is that its source does not compile, if it does not. -/
def ToldUncompiled (c : Context) (r : Report) : Prop :=
  ∀ e, c.compiled = .error e → r = ⟨c.id, .failed, ⟨#[compileLine e]⟩⟩

lemma Context.compiles_eq_false_iff {c : Context} :
    c.compiles = false ↔ ∃ e, c.compiled = .error e := by
  unfold compiles
  cases c.compiled <;> simp

namespace Session

section

variable {s s' : Session σ} {c : Context}

/-- What a context without a script tells. -/
lemma report_of_uncompiled (s : Session σ) (c : Context) :
    ToldUncompiled c (s.execute host c).1.report := by
  intro e he
  unfold execute
  rw [he]
  rfl

/-- A context without a script leaves the session as it was, but for its output and for frames that
are not needed any more. -/
lemma execute_of_uncompiled {e : SyntaxError} (he : c.compiled = .error e) :
    (s.execute host c).2 =
      { s with
        heap := (s.machine c.id c.terminal).heap
        journal := s.journal ++ #[.cleared c.id, .line c.id (compileLine e)] } := by
  unfold execute
  rw [he]
  rfl

/-- Nothing happens there but output. -/
lemma actsOf_of_uncompiled (hc : c.compiles = false) :
    actsOf (s.execute host c).2.journal.toList = actsOf s.journal.toList := by
  obtain ⟨e, he⟩ := Context.compiles_eq_false_iff.1 hc
  rw [execute_of_uncompiled host he, Array.toList_append, actsOf_append]
  exact List.append_nil _

lemma Alike.trans {s'' : Session σ} (h : Alike s s') (h' : Alike s' s'') : Alike s s'' where
  store := h'.store.trans h.store
  tasks := h'.tasks.trans h.tasks
  heap hscript := (h'.heap (h.tasks ▸ hscript)).trans (h.heap hscript)

lemma Alike.symm (h : Alike s s') : Alike s' s where
  store := h.store.symm
  tasks := h.tasks.symm
  heap hscript := (h.heap (h.tasks ▸ hscript)).symm

/-- No later run can tell whether a context without a script has run. -/
lemma alike_of_uncompiled (hc : c.compiles = false) : Alike s (s.execute host c).2 := by
  obtain ⟨e, he⟩ := Context.compiles_eq_false_iff.1 hc
  rw [execute_of_uncompiled host he]
  exact ⟨rfl, rfl, fun hscript => if_neg (by rw [hscript]; exact Bool.false_ne_true)⟩

/-- A run does the same in sessions that are alike. -/
lemma Alike.actsOf_execute (h : Alike s s') (hacts : actsOf s'.journal.toList =
    actsOf s.journal.toList) (c : Context) :
    actsOf (s'.execute host c).2.journal.toList = actsOf (s.execute host c).2.journal.toList := by
  obtain ⟨-, m, hs, hs'⟩ := h.execute host c
  have hresume : ∀ t : Session σ, actsOf (t.resume m).journal.toList =
      actsOf t.journal.toList ++ actsOf m.journal.toList := by
    intro t
    rw [← actsOf_append]
    exact congrArg actsOf Array.toList_append
  rw [hs, hs', hresume, hresume, hacts]

end

/-- The reports on the contexts that have a script. -/
def compiledReports (contexts : List Context) (reports : List Report) : List Report :=
  ((contexts.zip reports).filter (·.1.compiles)).map (·.2)

/-- A batch in one of two sessions that are alike, and the batch without the contexts that have no
script in the other. -/
lemma Alike.runMany_compiled (contexts : List Context) : ∀ {s s' : Session σ}, Alike s s' →
    actsOf s'.journal.toList = actsOf s.journal.toList →
      (s'.runMany host (contexts.filter Context.compiles)).1 =
        compiledReports contexts (s.runMany host contexts).1 ∧
      Alike (s.runMany host contexts).2
        (s'.runMany host (contexts.filter Context.compiles)).2 ∧
      actsOf (s'.runMany host (contexts.filter Context.compiles)).2.journal.toList =
        actsOf (s.runMany host contexts).2.journal.toList := by
  induction contexts with
  | nil => exact fun h hacts => ⟨rfl, h, hacts⟩
  | cons c rest ih =>
    intro s s' h hacts
    rw [runMany_cons]
    cases hc : c.compiles with
    | false =>
      have hrest : Alike (s.execute host c).2 s' := (alike_of_uncompiled host hc).symm.trans h
      obtain ⟨hreports, hafter, hdone⟩ :=
        ih hrest (hacts.trans (actsOf_of_uncompiled host hc).symm)
      rw [List.filter_cons_of_neg (by simp [hc])]
      refine ⟨?_, hafter, hdone⟩
      rw [hreports]
      simp [compiledReports, hc]
    | true =>
      obtain ⟨hcontext, m, hs, hs'⟩ := h.execute host c
      have hrest : Alike (s.execute host c).2 (s'.execute host c).2 := by
        rw [hs, hs']
        exact alike_resume s s' m
      obtain ⟨hreports, hafter, hdone⟩ := ih hrest (h.actsOf_execute host hacts c)
      rw [List.filter_cons_of_pos hc, runMany_cons]
      refine ⟨?_, hafter, hdone⟩
      rw [hreports, hcontext]
      simp [compiledReports, hc]

/-- Each context of a batch without a script is told to have none. -/
lemma forall₂_toldUncompiled (s : Session σ) (contexts : List Context) :
    List.Forall₂ ToldUncompiled contexts (s.runMany host contexts).1 := by
  induction contexts generalizing s with
  | nil => exact .nil
  | cons c rest ih => exact .cons (report_of_uncompiled host s c) (ih _)

/-- **Contexts without a script are inert in a batch.** Leaving them all out changes neither what
the batch does, in the store and by the hook, nor the store and the tasks that it leaves nor what is
reported of the others. What is reported of them is that they failed, with the error as the only
line, whatever their terminals showed before. -/
theorem uncompiled_contexts_are_inert (s : Session σ) (contexts : List Context) :
    actsOf (s.runMany host (contexts.filter Context.compiles)).2.journal.toList =
        actsOf (s.runMany host contexts).2.journal.toList ∧
      (s.runMany host (contexts.filter Context.compiles)).2.store =
        (s.runMany host contexts).2.store ∧
      (s.runMany host (contexts.filter Context.compiles)).2.tasks =
        (s.runMany host contexts).2.tasks ∧
      (s.runMany host (contexts.filter Context.compiles)).1 =
        compiledReports contexts (s.runMany host contexts).1 ∧
      List.Forall₂ ToldUncompiled contexts (s.runMany host contexts).1 := by
  have hself : Alike s s := ⟨rfl, rfl, fun _ => rfl⟩
  obtain ⟨hreports, hafter, hdone⟩ := hself.runMany_compiled host contexts rfl
  exact ⟨hdone, hafter.store, hafter.tasks, hreports, forall₂_toldUncompiled host s contexts⟩

end Session

end ScriptedNotes
