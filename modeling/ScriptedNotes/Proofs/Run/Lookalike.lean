import Mathlib.Tactic.Common
import ScriptedNotes.Proofs.Run.Leftover
import ScriptedNotes.Proofs.Run.Related

/-!
Stores that look the same to scripts. Where every call has one reply on related stores and leaves
them related, a script does on one of them what it does on the other: it ends alike, and all that it
leaves is the same but for the store (`lookalike_runScript`).
-/

namespace ScriptedNotes.Run

open Script (Function Compiled Program)

variable {σ α β : Type}

/-- No call tells one of two related stores from the other. -/
structure Backend.CannotTell (S : Backend σ) (R : σ → σ → Prop) : Prop where
  change : ∀ c x y, R x y → (S.change c y).1 = (S.change c x).1 ∧
    R (S.change c x).2 (S.change c y).2
  read : ∀ path x y, R x y → (S.read path y).1 = (S.read path x).1 ∧
    R (S.read path x).2 (S.read path y).2

/-- A store cannot be told from itself. -/
lemma Backend.cannotTell_eq (S : Backend σ) : S.CannotTell (· = ·) := by
  constructor <;>
  · rintro _ x _ rfl
    exact ⟨rfl, rfl⟩

/-- Two states are the same but for their stores, which are related. -/
structure Machine.SameBut (R : σ → σ → Prop) (m n : Machine σ) : Prop where
  store : R m.store n.store
  rest : n = { m with store := n.store }

/-- The correspondence of a run with the same run on a related store. -/
abbrev lookalike (R : σ → σ → Prop) : Correspondence σ :=
  .between id (Machine.SameBut R)

section

variable {R : σ → σ → Prop}

/-- A step that leaves the store alone. -/
lemma lookalike_step {f : α → β} {x : Exec σ α} {y : Exec σ β}
    (hstep : ∀ m s, y { m with store := s } = ((x m).1.map f, { (x m).2 with store := s }))
    (hstore : ∀ m, (x m).2.store = m.store) : (lookalike R).rel f x y := by
  intro m n h
  have hend := hstep m n.store
  rw [← h.rest] at hend
  rw [hend]
  refine ⟨rfl, ?_, rfl⟩
  rw [hstore]
  exact h.store

lemma level_sameBut : Correspondence.Level (Machine.SameBut R) where
  depth h := by rw [h.rest]
  deepest h := by rw [h.rest]
  atDepth h depth := ⟨h.store, by rw [h.rest]⟩
  toDeepest h deepest := ⟨h.store, by rw [h.rest]⟩

/-- All frames keep their numbers, so both runs have the same tasks. -/
lemma eq_of_renamed_id {handler handler' : Handler} (h : handler.Renamed id handler') :
    handler' = handler := by
  cases h with
  | script code frame => rfl
  | @host run run' inRun hrun =>
    have heq : run = run' := funext fun args => by rw [(hrun args).eq, map_rename_id]
    rw [heq]

lemma lookalike_task {f : α → β} {k : Option Task → Exec σ α} {l : Option Task → Exec σ β}
    (name : String) (hnone : (lookalike R).rel f (k none) (l none))
    (hsome : ∀ description handler handler', handler.Renamed id handler' → (lookalike R).rel f
      (k (some ⟨description, handler⟩)) (l (some ⟨description, handler'⟩))) :
    (lookalike R).rel f (Exec.taskOf? name >>= k) (Exec.taskOf? name >>= l) := by
  intro m n h
  have htasks : n.tasks = m.tasks := by rw [h.rest]
  show (l (Keyed.get? name n.tasks) n).1 = (k (Keyed.get? name m.tasks) m).1.map f ∧
    (k (Keyed.get? name m.tasks) m).2.SameBut R (l (Keyed.get? name n.tasks) n).2
  rw [htasks]
  cases Keyed.get? name m.tasks with
  | none => exact hnone m n h
  | some task =>
    exact hsome task.description task.handler task.handler task.handler.renamed_id m n h

lemma lookalike_assign (frame : FrameId) (name : String) (v : Value) :
    (lookalike R).rel id (Exec.assign frame name v) (Exec.assign frame name v) := by
  refine lookalike_step (fun m s => ?_) fun m => ?_
  · unfold Exec.assign
    dsimp only
    cases m.heap.assignee? frame name <;> rfl
  · unfold Exec.assign
    split <;> rfl

/-- A call that cannot tell related stores apart. -/
lemma lookalike_reply {f : σ → Except Failure α × σ} {event : Except Failure α → Event}
    (hf : ∀ x y, R x y → (f y).1 = (f x).1 ∧ R (f x).2 (f y).2) :
    (lookalike R).rel id (do Exec.ofReply (← Exec.callStore f event))
      (do Exec.ofReply (← Exec.callStore f event)) := by
  have hcall : (lookalike R).rel id (Exec.callStore f event) (Exec.callStore f event) := by
    intro m n h
    obtain ⟨hreply, hstore⟩ := hf m.store n.store h.store
    refine ⟨congrArg Result.value hreply, hstore, ?_⟩
    have hrest := h.rest
    obtain ⟨heap, tasks, store, depth, deepest, strays, unbound, context, terminal, journal⟩ := m
    cases n
    cases hrest
    exact congrArg
      (fun reply => (⟨_, _, _, _, _, _, _, _, _, journal.push (event reply)⟩ : Machine σ)) hreply
  refine Correspondence.between_bind hcall fun reply => ?_
  cases reply with
  | ok a => exact lookalike_step (fun _ _ => rfl) fun _ => rfl
  | error failure => exact lookalike_step (fun _ _ => rfl) fun _ => rfl

lemma value_lookalike : (lookalike R).value = id :=
  funext Value.rename_id

lemma lawful_lookalike {S : Backend σ} (hS : S.CannotTell R) : (lookalike R).Lawful S where
  pure f a := lookalike_step (fun _ _ => rfl) fun _ => rfl
  bind := Correspondence.between_bind
  thrown _ _ := lookalike_step (fun _ _ => rfl) fun _ => rfl
  failed _ _ := lookalike_step (fun _ _ => rfl) fun _ => rfl
  unfinished _ := lookalike_step (fun _ _ => rfl) fun _ => rfl
  attempt := Correspondence.between_attempt
  nested := Correspondence.between_nested level_sameBut
  endCall flow := by
    refine lookalike_step (fun m s => ?_) fun m => ?_
    · unfold Exec.endCall
      rw [Flow.result_rename, Flow.isStray_rename]
      cases flow.isStray <;> rfl
    · unfold Exec.endCall
      cases flow.isStray <;> rfl
  lookup frame name := by
    rw [value_lookalike]
    refine lookalike_step (fun m s => ?_) fun _ => rfl
    exact congrArg (fun v? => (Result.value v?, _)) (congrFun Option.map_id _).symm
  task := lookalike_task
  newFrame frame := lookalike_step (fun _ _ => rfl) fun _ => rfl
  declare frame name v constant := by
    rw [value_lookalike]
    exact lookalike_step (fun _ _ => rfl) fun _ => rfl
  assign frame name v := by
    rw [value_lookalike]
    exact lookalike_assign frame name v
  register name description code frame := lookalike_step (fun _ _ => rfl) fun _ => rfl
  registerHost name description run run' h := by
    rw [eq_of_renamed_id (.host true h)]
    exact lookalike_step (fun _ _ => rfl) fun _ => rfl
  listTasks := lookalike_step (fun _ _ => rfl) fun _ => rfl
  emit _ _ := lookalike_step (fun _ _ => rfl) fun _ => rfl
  clear := lookalike_step (fun _ _ => rfl) fun _ => rfl
  sleep _ := lookalike_step (fun _ _ => rfl) fun _ => rfl
  change c := lookalike_reply (hS.change c)
  read path := lookalike_reply (hS.read path)

variable {S : Backend σ} (hS : S.CannotTell R) (fuel : Nat)

include hS

lemma lookalike_runProgram (program : Program) :
    (lookalike R).rel (Flow.rename id) (runProgram S fuel program) (runProgram S fuel program) := by
  intro m n h
  have hheap : n.heap = m.heap := by rw [h.rest]
  have hblock := (Correspondence.evaluatorCorresponds (lawful_lookalike hS) fuel).block
  unfold runProgram
  rw [hheap]
  exact hblock m.heap.size program { m with heap := m.heap.root.2 }
    { n with heap := m.heap.root.2 } ⟨h.store, by rw [h.rest]⟩

/-- **A script does the same on stores that look the same to it.** -/
theorem lookalike_runScript (script : Compiled) :
    (lookalike R).rel id (runScript S fuel script) (runScript S fuel script) :=
  (lawful_lookalike hS).runScript fuel script (lookalike_runProgram hS fuel script.program)

end

end ScriptedNotes.Run
