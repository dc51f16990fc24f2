import Mathlib.Tactic.Common
import ScriptedNotes.Proofs.Run.Closures
import ScriptedNotes.Proofs.Run.Related

/-!
Frames that are left over. A run that begins in a heap with frames of earlier runs numbers its own
frames from behind these. Nothing that it does depends on that: it goes as in a heap without them,
up to the numbers, and leaves them as they were (`leftover_runScript`). The tasks have to be
procedures of the host that cannot tell the numbers of frames, or functions that were made in frames
of the run.
-/

namespace ScriptedNotes.Run

open Script (Function Stmt Compiled Program)

/-! ### Frames behind others -/

namespace Heap

variable (left : Heap)

/-- The number of a frame when there are others before it. -/
abbrev skip : FrameId → FrameId :=
  fun frame => frame + left.size

/-- The frames of a heap behind others, with the numbers that they have there. -/
def behind (h : Heap) : Heap :=
  left ++ h.map (Frame.rename left.skip)

variable (h : Heap)

lemma getElem?_behind (frame : FrameId) :
    (left.behind h)[left.skip frame]? = h[frame]?.map (Frame.rename left.skip) := by
  unfold behind skip
  rw [Array.getElem?_append_right (Nat.le_add_left _ _), Nat.add_sub_cancel, Array.getElem?_map]

lemma chain_behind (frame : FrameId) :
    (left.behind h).chain (left.skip frame) = (h.chain frame).map left.skip := by
  unfold chain
  rw [getElem?_behind]
  cases h[frame]? <;> rfl

lemma binding?_behind (frame : FrameId) (name : String) :
    (left.behind h).binding? (left.skip frame) name =
      (h.binding? frame name).map fun b => { b with value := b.value.rename left.skip } := by
  unfold binding?
  rw [getElem?_behind]
  cases h[frame]? with
  | none => rfl
  | some f => exact get?_map _ name f.bindings

lemma holder?_behind (frame : FrameId) (name : String) :
    (left.behind h).holder? (left.skip frame) name = (h.holder? frame name).map left.skip := by
  unfold holder?
  rw [chain_behind, List.find?_map]
  refine congrArg (fun p => ((h.chain frame).find? p).map left.skip) (funext fun f => ?_)
  show ((left.behind h).binding? (left.skip f) name).isSome = _
  rw [binding?_behind, Option.isSome_map]

lemma lookup?_behind (frame : FrameId) (name : String) :
    (left.behind h).lookup? (left.skip frame) name =
      (h.lookup? frame name).map (Value.rename left.skip) := by
  unfold lookup?
  rw [holder?_behind]
  cases h.holder? frame name with
  | none => rfl
  | some f =>
    show ((left.behind h).binding? (left.skip f) name).map (·.value) = _
    rw [binding?_behind]
    cases hb : h.binding? f name <;> simp [hb]

lemma globalOf_behind (frame : FrameId) :
    (left.behind h).globalOf (left.skip frame) = left.skip (h.globalOf frame) := by
  unfold globalOf
  rw [chain_behind, List.getLastD_eq_getLast?, List.getLastD_eq_getLast?, List.getLast?_map]
  cases (h.chain frame).getLast? <;> rfl

lemma assignee?_behind (frame : FrameId) (name : String) :
    (left.behind h).assignee? (left.skip frame) name = (h.assignee? frame name).map left.skip := by
  unfold assignee?
  rw [holder?_behind]
  cases h.holder? frame name with
  | none => exact congrArg some (globalOf_behind left h frame)
  | some f =>
    have hconstant : ((left.behind h).binding? (left.skip f) name).any (·.constant) =
        (h.binding? f name).any (·.constant) := by
      rw [binding?_behind]
      cases h.binding? f name <;> rfl
    simp only [Option.map_some, hconstant]
    split <;> rfl

lemma child_behind (outer : List FrameId) :
    (left.behind h).child (outer.map left.skip) = left.behind (h.child outer) := by
  unfold child behind
  rw [Array.map_push, Array.append_push]
  rfl

lemma size_behind : (left.behind h).size = left.skip h.size := by
  unfold behind skip
  rw [Array.size_append, Array.size_map, Nat.add_comm]

lemma root_behind : (left.behind h).root = (left.skip h.size, left.behind h.root.2) := by
  have hpush : (left.behind h).push {} = left.behind (h.push {}) := child_behind left h []
  unfold root
  rw [size_behind, hpush]

lemma declare_behind (frame : FrameId) (name : String) (v : Value) (constant : Bool) :
    (left.behind h).declare (left.skip frame) name (v.rename left.skip) constant =
      left.behind (h.declare frame name v constant) := by
  have hput : ∀ f : Frame,
      ({ f.rename left.skip with
          bindings := (f.rename left.skip).bindings.put name ⟨v.rename left.skip, constant⟩ } :
        Frame) =
        ({ f with bindings := f.bindings.put name ⟨v, constant⟩ } : Frame).rename left.skip := by
    intro f
    unfold Frame.rename
    rw [← put_map]
  refine Array.ext_getElem? fun i => ?_
  unfold declare
  rw [Array.getElem?_modify]
  rcases Nat.lt_or_ge i left.size with hi | hi
  · have hne : left.skip frame ≠ i :=
      Nat.ne_of_gt (Nat.lt_of_lt_of_le hi (Nat.le_add_left left.size frame))
    rw [if_neg hne]
    unfold behind
    rw [Array.getElem?_append_left hi, Array.getElem?_append_left hi]
  · obtain ⟨j, rfl⟩ := Nat.exists_eq_add_of_le' hi
    rw [getElem?_behind, getElem?_behind, Array.getElem?_modify]
    by_cases hj : frame = j
    · rw [if_pos hj, if_pos (congrArg left.skip hj), Option.map_map, Option.map_map]
      exact congrArg (h[j]?.map ·) (funext hput)
    · have hne : left.skip frame ≠ j + left.size := fun heq => hj (Nat.add_right_cancel heq)
      rw [if_neg hj, if_neg hne]

end Heap

/-! ### Tasks -/

section

variable (ρ : FrameId → FrameId)

/-- The same task on frames with other numbers. -/
structure Task.Renamed (t t' : Task) : Prop where
  description : t'.description = t.description
  handler : t.handler.Renamed ρ t'.handler

/-- The same tasks by the same names, on frames with other numbers. -/
abbrev Registry.Renamed : Registry → Registry → Prop :=
  List.Forall₂ fun p q => q.1 = p.1 ∧ p.2.Renamed ρ q.2

namespace Registry.Renamed

variable {ρ} {r r' : Registry}

lemma get? (h : r.Renamed ρ r') (name : String) :
    Option.Rel (Task.Renamed ρ) (Keyed.get? name r) (Keyed.get? name r') := by
  induction h with
  | nil => exact .none
  | @cons p q _ _ hpq _ ih =>
    obtain ⟨n, t⟩ := p
    obtain ⟨n', t'⟩ := q
    obtain ⟨rfl, ht⟩ : n' = n ∧ t.Renamed ρ t' := hpq
    unfold Keyed.get?
    split
    · exact .some ht
    · exact ih

lemma put (h : r.Renamed ρ r') (name : String) {t t' : Task} (ht : t.Renamed ρ t') :
    Registry.Renamed ρ (Keyed.put name t r) (Keyed.put name t' r') := by
  induction h with
  | nil => exact .cons ⟨rfl, ht⟩ .nil
  | @cons p q _ _ hpq hrest ih =>
    obtain ⟨n, s⟩ := p
    obtain ⟨n', s'⟩ := q
    obtain ⟨rfl, hs⟩ : n' = n ∧ s.Renamed ρ s' := hpq
    unfold Keyed.put
    split
    · exact .cons ⟨rfl, ht⟩ hrest
    · split
      · exact .cons ⟨rfl, ht⟩ (.cons ⟨rfl, hs⟩ hrest)
      · exact .cons ⟨rfl, hs⟩ ih

lemma list (h : r.Renamed ρ r') : Registry.list r' = Registry.list r := by
  induction h with
  | nil => rfl
  | @cons p q _ _ hpq _ ih =>
    have hentry : (q.1, q.2.description) = (p.1, p.2.description) := by
      rw [hpq.1, hpq.2.description]
    exact congrArg₂ List.cons hentry ih

end Registry.Renamed

end

/-! ### States -/

variable {σ α β : Type}

/-- The state with its frames behind others, and with other tasks. -/
def Machine.behind (left : Heap) (tasks : Registry) (m : Machine σ) : Machine σ :=
  { m with
    heap := left.behind m.heap
    unbound := m.unbound.map (Prod.map left.skip id)
    tasks := tasks }

/-- The procedures of the host cannot tell the numbers of frames that have others before them. -/
def Registry.BlindTo (left : Heap) (r : Registry) : Prop :=
  ∀ p ∈ r, ∀ run inRun, p.2.handler = .host run inRun → Run.BlindTo left.skip run

/-- One state is the other with its frames behind others. -/
def Machine.IsBehind (left : Heap) (m n : Machine σ) : Prop :=
  ∃ tasks, m.tasks.Renamed left.skip tasks ∧ n = m.behind left tasks

/-- The correspondence of a run with the same run behind other frames. -/
abbrev leftover (σ : Type) (left : Heap) : Correspondence σ :=
  .between left.skip (Machine.IsBehind left)

section

variable {left : Heap}

/-- A step that leaves the tasks alone. -/
lemma leftover_step {f : α → β} {x : Exec σ α} {y : Exec σ β}
    (hstep : ∀ m tasks, y (m.behind left tasks) = ((x m).1.map f, (x m).2.behind left tasks))
    (htasks : ∀ m, (x m).2.tasks = m.tasks) : (leftover σ left).rel f x y := by
  rintro m n ⟨tasks, hrenamed, rfl⟩
  rw [hstep]
  refine ⟨rfl, tasks, ?_, rfl⟩
  rw [htasks]
  exact hrenamed

lemma level_isBehind :
    Correspondence.Level (Machine.IsBehind left : Machine σ → Machine σ → Prop) where
  depth := by
    rintro m n ⟨tasks, -, rfl⟩
    rfl
  deepest := by
    rintro m n ⟨tasks, -, rfl⟩
    rfl
  atDepth := by
    rintro m n ⟨tasks, hrenamed, rfl⟩ depth
    exact ⟨tasks, hrenamed, rfl⟩
  toDeepest := by
    rintro m n ⟨tasks, hrenamed, rfl⟩ deepest
    exact ⟨tasks, hrenamed, rfl⟩

lemma leftover_task {f : α → β} {k : Option Task → Exec σ α} {l : Option Task → Exec σ β}
    (name : String) (hnone : (leftover σ left).rel f (k none) (l none))
    (hsome : ∀ description handler handler', handler.Renamed left.skip handler' →
      (leftover σ left).rel f (k (some ⟨description, handler⟩))
        (l (some ⟨description, handler'⟩))) :
    (leftover σ left).rel f (Exec.taskOf? name >>= k) (Exec.taskOf? name >>= l) := by
  rintro m n ⟨tasks, hrenamed, rfl⟩
  show (l (Keyed.get? name tasks) (m.behind left tasks)).1 =
      (k (Keyed.get? name m.tasks) m).1.map f ∧
    Machine.IsBehind left (k (Keyed.get? name m.tasks) m).2
      (l (Keyed.get? name tasks) (m.behind left tasks)).2
  have hget := hrenamed.get? name
  cases hk : Keyed.get? name m.tasks with
  | none =>
    rw [hk] at hget
    cases hl : Keyed.get? name tasks with
    | none => exact hnone m _ ⟨tasks, hrenamed, rfl⟩
    | some t' => rw [hl] at hget; cases hget
  | some t =>
    rw [hk] at hget
    cases hl : Keyed.get? name tasks with
    | none => rw [hl] at hget; cases hget
    | some t' =>
      rw [hl] at hget
      obtain ⟨description, handler⟩ := t
      obtain ⟨description', handler'⟩ := t'
      cases hget with
      | some ht =>
        obtain rfl : description' = description := ht.description
        exact hsome description' handler handler' ht.handler m _ ⟨tasks, hrenamed, rfl⟩

lemma leftover_register (name description : String) {handler handler' : Handler}
    (h : handler.Renamed left.skip handler') :
    (leftover σ left).rel id (Exec.register name ⟨description, handler⟩)
      (Exec.register name ⟨description, handler'⟩) := by
  rintro m n ⟨tasks, hrenamed, rfl⟩
  exact ⟨rfl, Keyed.put name ⟨description, handler'⟩ tasks, hrenamed.put name ⟨rfl, h⟩, rfl⟩

lemma leftover_listTasks :
    (leftover σ left).rel id (Exec.listTasks : Exec σ _) Exec.listTasks := by
  rintro m n ⟨tasks, hrenamed, rfl⟩
  exact ⟨congrArg Result.value hrenamed.list, tasks, hrenamed, rfl⟩

lemma mapHeap_behind {f g : Heap → Heap} {m : Machine σ} (tasks : Registry)
    (h : g (left.behind m.heap) = left.behind (f m.heap)) :
    (m.behind left tasks).mapHeap g = (m.mapHeap f).behind left tasks := by
  show { m.behind left tasks with heap := g (left.behind m.heap) } = _
  rw [h]
  rfl

lemma noteUnbound_behind (m : Machine σ) (tasks : Registry) (frame : FrameId) (name : String) :
    (m.behind left tasks).noteUnbound (left.skip frame) name =
      (m.noteUnbound frame name).behind left tasks := by
  have hholder : ((m.behind left tasks).heap.holder? (left.skip frame) name).isNone =
      (m.heap.holder? frame name).isNone := by
    rw [show (m.behind left tasks).heap = left.behind m.heap from rfl, Heap.holder?_behind,
      Option.isNone_map]
  unfold Machine.noteUnbound
  rw [hholder]
  cases (m.heap.holder? frame name).isNone <;> rfl

lemma leftover_assign (frame : FrameId) (name : String) (v : Value) :
    (leftover σ left).rel id (Exec.assign frame name v)
      (Exec.assign (left.skip frame) name (v.rename left.skip)) := by
  refine leftover_step (fun m tasks => ?_) fun m => ?_
  · have hplace : (m.behind left tasks).heap.assignee? (left.skip frame) name =
        (m.heap.assignee? frame name).map left.skip := Heap.assignee?_behind ..
    unfold Exec.assign
    rw [hplace]
    cases m.heap.assignee? frame name with
    | none => rfl
    | some place =>
      refine congrArg (Prod.mk (Result.value ())) ?_
      rw [noteUnbound_behind]
      exact mapHeap_behind tasks (Heap.declare_behind left m.heap place name v false)
  · unfold Exec.assign
    split <;> rfl

/-- A call of the store. -/
lemma leftover_call {f : σ → Except Failure α × σ} {event : Except Failure α → Event} :
    (leftover σ left).rel id (Exec.callStore f event) (Exec.callStore f event) :=
  leftover_step (fun _ _ => rfl) fun _ => rfl

lemma leftover_reply {f : σ → Except Failure α × σ} {event : Except Failure α → Event} :
    (leftover σ left).rel id (do Exec.ofReply (← Exec.callStore f event))
      (do Exec.ofReply (← Exec.callStore f event)) := by
  refine Correspondence.between_bind leftover_call fun reply => ?_
  cases reply with
  | ok a => exact leftover_step (fun _ _ => rfl) fun _ => rfl
  | error failure => exact leftover_step (fun _ _ => rfl) fun _ => rfl

lemma lawful_leftover (S : Backend σ) : (leftover σ left).Lawful S where
  pure f a := leftover_step (fun _ _ => rfl) fun _ => rfl
  bind := Correspondence.between_bind
  thrown _ _ := leftover_step (fun _ _ => rfl) fun _ => rfl
  failed _ _ := leftover_step (fun _ _ => rfl) fun _ => rfl
  unfinished _ := leftover_step (fun _ _ => rfl) fun _ => rfl
  attempt := Correspondence.between_attempt
  nested := Correspondence.between_nested level_isBehind
  endCall flow := by
    refine leftover_step (fun m tasks => ?_) fun m => ?_
    · unfold Exec.endCall
      rw [Flow.result_rename, Flow.isStray_rename]
      cases flow.isStray <;> rfl
    · unfold Exec.endCall
      cases flow.isStray <;> rfl
  lookup frame name := by
    refine leftover_step (fun m tasks => ?_) fun _ => rfl
    exact congrArg (fun v? => (Result.value v?, m.behind left tasks))
      (Heap.lookup?_behind left m.heap frame name)
  task := leftover_task
  newFrame frame := by
    refine leftover_step (fun m tasks => ?_) fun _ => rfl
    have hheap : (left.behind m.heap).child ((left.behind m.heap).chain (left.skip frame)) =
        left.behind (m.heap.child (m.heap.chain frame)) := by
      rw [Heap.chain_behind, Heap.child_behind]
    exact congrArg₂ (fun size m => (Result.value size, m)) (Heap.size_behind left m.heap)
      (mapHeap_behind tasks hheap)
  declare frame name v constant := by
    refine leftover_step (fun m tasks => ?_) fun _ => rfl
    refine congrArg (Prod.mk (Result.value ())) ?_
    exact mapHeap_behind tasks (Heap.declare_behind left m.heap frame name v constant)
  assign := leftover_assign
  register name description code frame := leftover_register name description (.script code frame)
  registerHost name description _ _ h := leftover_register name description (.host true h)
  listTasks := leftover_listTasks
  emit _ _ := leftover_step (fun _ _ => rfl) fun _ => rfl
  clear := leftover_step (fun _ _ => rfl) fun _ => rfl
  sleep _ := leftover_step (fun _ _ => rfl) fun _ => rfl
  change _ := leftover_reply
  read _ := leftover_reply

variable (S : Backend σ) (fuel : Nat)

lemma leftover_runProgram (program : Program) :
    (leftover σ left).rel (Flow.rename left.skip) (runProgram S fuel program)
      (runProgram S fuel program) := by
  rintro m n ⟨tasks, hrenamed, rfl⟩
  have hC : (leftover σ left).Lawful S := lawful_leftover S
  have hblock := (Correspondence.evaluatorCorresponds hC fuel).block
  have hroot : (m.behind left tasks).heap.root =
      (left.skip m.heap.size, left.behind m.heap.root.2) :=
    Heap.root_behind left m.heap
  unfold runProgram
  rw [hroot]
  exact hblock m.heap.size program { m with heap := m.heap.root.2 } _ ⟨tasks, hrenamed, rfl⟩

/-- A script goes behind other frames as it goes without them. -/
theorem leftover_runScript (script : Compiled) :
    (leftover σ left).rel id (runScript S fuel script) (runScript S fuel script) :=
  (lawful_leftover S).runScript fuel script (leftover_runProgram S fuel script.program)

end

/-! ### The tasks that are there from the start -/

section

variable (ρ : FrameId → FrameId)

/-- The name of the project that is to be laid out. -/
def projectOf : List Value → String
  | .str s :: _ => String.ofList (Text.trim s.toList)
  | _ => ""

/-- The template that it is to be laid out by. -/
def templateOf : List Value → String
  | _ :: .nil :: _ => "basic"
  | _ :: v :: _ => v.display
  | _ => "basic"

/-- Lays out a project by a template. -/
def layOut (name template : String) : Action :=
  if name = "" then .throw "scaffold expects a project name"
  else
    .emit .info ("Creating " ++ template ++ " project: " ++ name) <|
      .change (.createDirectory name) fun _ =>
        .createFiles
          (if template = "basic" then
            [(name ++ "/README.md", "# " ++ name), (name ++ "/src/main.js", "// Main entry point"),
              (name ++ "/src/styles.css", "/* Styles */")]
          else [])
          (.emit .success "Project created successfully!" (.done (.bool true)))

lemma scaffold_eq (args : List Value) :
    scaffold args = layOut (projectOf args) (templateOf args) := by
  cases args with
  | nil => rfl
  | cons v rest =>
    cases rest with
    | nil => cases v <;> rfl
    | cons w rest => cases v <;> cases w <;> rfl

lemma projectOf_rename (args : List Value) :
    projectOf (args.map (Value.rename ρ)) = projectOf args := by
  cases args with
  | nil => rfl
  | cons v rest => cases v <;> rfl

lemma templateOf_rename (args : List Value) :
    templateOf (args.map (Value.rename ρ)) = templateOf args := by
  cases args with
  | nil => rfl
  | cons v rest =>
    cases rest with
    | nil => rfl
    | cons w rest =>
      have hdisplay := Value.display_rename ρ w
      cases w <;> first | rfl | exact hdisplay

lemma layOut_renamed (name template : String) :
    (layOut name template).Renamed ρ (layOut name template) := by
  have hdone : (Action.done (.bool true)).Renamed ρ (.done (.bool true)) := .done (.bool true)
  unfold layOut
  split
  · exact .fail _
  · exact .emit (.change fun _ => .createFiles (.emit hdone) _)

/-- The task that lays out a project sees texts only. -/
lemma blindTo_scaffold : BlindTo ρ scaffold := by
  intro args
  rw [scaffold_eq, scaffold_eq, projectOf_rename, templateOf_rename]
  exact layOut_renamed ρ _ _

end

lemma blindTo_builtin (left : Heap) : Registry.builtin.BlindTo left := by
  intro p hp run inRun hrun
  obtain rfl := List.mem_singleton.1 hp
  cases hrun
  exact blindTo_scaffold left.skip

end ScriptedNotes.Run
