import ScriptedNotes.Proofs.Keyed
import ScriptedNotes.Run.Eval

/-!
Function definitions anywhere in their block. A block declares its functions before its first
statement runs, and where a definition stands nothing is done any more. Declarations under
different names may change places, so a definition may stand anywhere in its block as long as no
other definition there has its name (`execBlock_moved`).
-/

namespace ScriptedNotes

namespace Run

open Script (Function Program Stmt)

/-- Names that differ may be bound in a frame in either order. -/
lemma Heap.declare_comm (h : Heap) (frame : FrameId) {name other : String} (hne : name ≠ other)
    (v w : Value) (c d : Bool) :
    (h.declare frame name v c).declare frame other w d =
      (h.declare frame other w d).declare frame name v c := by
  refine Array.ext_getElem? fun i => ?_
  simp only [declare, Array.getElem?_modify]
  split
  · cases h[i]? with
    | none => rfl
    | some f =>
      show some _ = some _
      simp only [Keyed.put_comm hne]
  · rfl

/-! ### The functions of a block -/

/-- The functions that a statement gives a name in its block. -/
def definition : Stmt → List (String × Function)
  | .function code => (code.name.map fun name => (name, code)).toList
  | _ => []

/-- The functions that a block gives names, in order. -/
def definitions (block : List Stmt) : List (String × Function) :=
  block.flatMap definition

/-- Declares functions in a frame, one after another. -/
def Heap.declareAll (frame : FrameId) : List (String × Function) → Heap → Heap
  | [], h => h
  | (name, code) :: fs, h =>
    Heap.declareAll frame fs (h.declare frame name (.function code frame) false)

section

variable {σ : Type} {frame : FrameId}

lemma Heap.declareAll_append (fs gs : List (String × Function)) (h : Heap) :
    Heap.declareAll frame (fs ++ gs) h =
      Heap.declareAll frame gs (Heap.declareAll frame fs h) := by
  induction fs generalizing h with
  | nil => rfl
  | cons f fs ih => exact ih _

/-- A function may be declared before others that do not have its name. -/
lemma Heap.declareAll_middle {name : String} {code : Function} {fs : List (String × Function)}
    (hother : ∀ f ∈ fs, f.1 ≠ name) (gs : List (String × Function)) (h : Heap) :
    Heap.declareAll frame (fs ++ (name, code) :: gs) h =
      Heap.declareAll frame ((name, code) :: (fs ++ gs)) h := by
  induction fs generalizing h with
  | nil => rfl
  | cons f fs ih =>
    obtain ⟨hne, hother⟩ := List.forall_mem_cons.1 hother
    refine (ih hother _).trans ?_
    show Heap.declareAll frame (fs ++ gs) ((h.declare frame f.1 _ false).declare frame name _ false)
      = Heap.declareAll frame (fs ++ gs) ((h.declare frame name _ false).declare frame f.1 _ false)
    rw [Heap.declare_comm h frame hne]

lemma mapHeap_mapHeap (f g : Heap → Heap) (m : Machine σ) :
    (m.mapHeap f).mapHeap g = m.mapHeap fun h => g (f h) := rfl

lemma hoist_cons (s : Stmt) (block : List Stmt) (m : Machine σ) :
    Exec.hoist frame (s :: block) m =
      Exec.hoist frame block (m.mapHeap (Heap.declareAll frame (definition s))) := by
  cases s with
  | function code =>
    simp only [Exec.hoist, definition]
    cases code.name <;> rfl
  | _ => rfl

/-- What is done before the first statement of a block goes by its definitions alone. -/
lemma hoist_eq (block : List Stmt) (m : Machine σ) :
    Exec.hoist frame block m =
      (.value (), m.mapHeap (Heap.declareAll frame (definitions block))) := by
  induction block generalizing m with
  | nil => rfl
  | cons s block ih =>
    rw [hoist_cons, ih, mapHeap_mapHeap]
    congr 2
    funext h
    exact (Heap.declareAll_append _ _ h).symm

/-! ### Where a definition stands -/

lemma definitions_append (block block' : List Stmt) :
    definitions (block ++ block') = definitions block ++ definitions block' :=
  List.flatMap_append

lemma definitions_function {name : String} {code : Function} (hname : code.name = some name)
    (block : List Stmt) :
    definitions (.function code :: block) = (name, code) :: definitions block := by
  simp [definitions, definition, hname]

lemma ne_of_mem_definitions {name : String} {block : List Stmt}
    (hother : ∀ code, Stmt.function code ∈ block → code.name ≠ some name) :
    ∀ f ∈ definitions block, f.1 ≠ name := by
  intro f hf heq
  obtain ⟨s, hs, hfs⟩ := List.mem_flatMap.1 hf
  cases s with
  | function code =>
    obtain ⟨_, hname, rfl⟩ : ∃ n, code.name = some n ∧ (n, code) = f := by
      simpa [definition] using hfs
    exact hother code hs (hname.trans (congrArg some heq))
  | _ => cases hfs

variable {name : String} {code : Function} {before after : List Stmt}

/-- A block declares a function as if its definition came first, when no other has its name. -/
lemma hoist_definition (hname : code.name = some name)
    (hother : ∀ c, Stmt.function c ∈ before ++ after → c.name ≠ some name) (m : Machine σ) :
    Exec.hoist frame (before ++ .function code :: after) m =
      Exec.hoist frame (.function code :: (before ++ after)) m := by
  have hbefore := ne_of_mem_definitions fun c hc => hother c (List.mem_append_left _ hc)
  rw [hoist_eq, hoist_eq, definitions_append, definitions_function hname,
    definitions_function hname, definitions_append]
  congr 2
  funext h
  exact Heap.declareAll_middle hbefore _ h

/-- Items that end normally and change nothing may be left out. -/
lemma sequence_idle {α : Type} {f : α → Exec σ Flow} {a : α} (ha : f a = pure .normal)
    (before after : List α) :
    Exec.sequence f (before ++ a :: after) = Exec.sequence f (before ++ after) := by
  induction before with
  | nil =>
    show Exec.bind (f a) _ = _
    rw [ha]
    rfl
  | cons b before ih =>
    rw [List.cons_append, List.cons_append, Exec.sequence, Exec.sequence, ih]

/-- Without fuel for its statements a block that has one does not end. -/
lemma sequence_unfinished {α : Type} {f : α → Exec σ Flow} (hf : ∀ a, f a = Exec.unfinished) (a : α)
    (before after : List α) : Exec.sequence f (before ++ a :: after) = Exec.unfinished := by
  cases before with
  | nil =>
    show Exec.bind (f a) _ = _
    rw [hf]
    rfl
  | cons b before =>
    show Exec.bind (f b) _ = _
    rw [hf]
    rfl

variable (S : Backend σ)

lemma exec_function (fuel : Nat) (code : Function) :
    exec S (fuel + 1) frame (.function code) = pure .normal := by
  rw [exec]

/-- A definition does the same wherever it stands as at the beginning of its block. -/
lemma execBlock_definition (hname : code.name = some name)
    (hother : ∀ c, Stmt.function c ∈ before ++ after → c.name ≠ some name) (fuel : Nat)
    (m : Machine σ) :
    execBlock S fuel frame (before ++ .function code :: after) m =
      execBlock S fuel frame (.function code :: (before ++ after)) m := by
  cases fuel with
  | zero => rw [execBlock, execBlock]
  | succ fuel =>
    have hsequence : Exec.sequence (exec S fuel frame) (before ++ .function code :: after) =
        Exec.sequence (exec S fuel frame) (.function code :: (before ++ after)) := by
      cases fuel with
      | zero =>
        have hunfinished : ∀ s, exec S 0 frame s = Exec.unfinished := fun s => by rw [exec]
        exact (sequence_unfinished hunfinished _ _ _).trans
          (sequence_unfinished hunfinished _ [] _).symm
      | succ fuel =>
        have hidle : exec S (fuel + 1) frame (.function code) = pure .normal :=
          exec_function S fuel code
        exact (sequence_idle hidle before after).trans (sequence_idle hidle [] _).symm
    rw [execBlock, execBlock, hsequence]
    show Exec.bind _ _ m = Exec.bind _ _ m
    unfold Exec.bind
    rw [hoist_definition hname hother m]

/-- **A function may be defined anywhere in its block.** When no other definition of the block has
its name, every run of the block, in any frame and state, ends in the same way and leaves the same
state wherever the definition stands: the frames with all their bindings, what was written, and the
calls that were made. This holds of whole programs, too. -/
theorem execBlock_moved {before' after' : List Stmt} (hname : code.name = some name)
    (hother : ∀ c, Stmt.function c ∈ before ++ after → c.name ≠ some name)
    (hmoved : before' ++ after' = before ++ after) (fuel : Nat) (m : Machine σ) :
    (∀ frame, execBlock S fuel frame (before' ++ .function code :: after') m =
      execBlock S fuel frame (before ++ .function code :: after) m) ∧
    runProgram S fuel (before' ++ .function code :: after') m =
      runProgram S fuel (before ++ .function code :: after) m := by
  have hblock : ∀ frame (m : Machine σ),
      execBlock S fuel frame (before' ++ .function code :: after') m =
        execBlock S fuel frame (before ++ .function code :: after) m := by
    intro frame m
    rw [execBlock_definition S hname hother, execBlock_definition S hname (hmoved ▸ hother), hmoved]
  exact ⟨fun frame => hblock frame m, hblock _ _⟩

end

/-- A function with a greeting. -/
def greeting : Function :=
  .mk (some "greet") [] [.return (some (.str "hello"))]

/-- Calls the function, gives its name to a text and fails when that is called. -/
def shadowing : Program :=
  [.expr (.callNamed "print" [.callNamed "greet" []]), .declare false "greet" (some (.str "hi")),
    .expr (.callNamed "greet" [])]

/-- A run of a program where nothing has been run before. -/
def alone (program : Program) : Result Flow × Machine Unit :=
  runProgram .willing 100 program { tasks := .builtin, store := (), context := "a" }

theorem execBlock_moved_shadowed :
    greeting.name = some "greet" ∧
      (∀ c, Stmt.function c ∈ shadowing ++ [] → c.name ≠ some "greet") ∧
      alone (.function greeting :: shadowing) = alone (shadowing ++ [.function greeting]) ∧
      (alone (.function greeting :: shadowing)).2.terminal = ⟨#[⟨.info, "hello"⟩]⟩ := by
  have hother : ∀ c, Stmt.function c ∈ shadowing ++ [] → c.name ≠ some "greet" := by
    simp [shadowing]
  have hmoved : [] ++ shadowing = shadowing ++ [] := (List.append_nil _).symm
  exact ⟨rfl, hother, (execBlock_moved _ rfl hother hmoved 100 _).2, by decide +kernel⟩

end Run

end ScriptedNotes
