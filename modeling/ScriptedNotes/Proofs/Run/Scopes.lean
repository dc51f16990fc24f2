import Mathlib.Tactic.Common
import ScriptedNotes.Proofs.Run.Evaluation
import ScriptedNotes.Proofs.Run.Frames

/-!
Scopes do not leak. Whatever a nested block or the body of a call does, and however it ends, the
frames that were there before keep their names and their constants; only a global frame may have
gained names, and these are the names that were assigned to meanwhile and unknown where they were
assigned to. The evaluator declares names in frames that are new since the block began and reaches
all others by assignments only: that is a discipline (`scoping`), so it holds of whole runs.
-/

namespace ScriptedNotes.Run

open Script (Function Stmt Expr)

/-- Every closure in the value was made in a frame that is there. -/
def Heap.Covers (h : Heap) (v : Value) : Prop :=
  v.AllClosures fun _ frame => frame < h.size

/-- A function of a script was made in a frame that is there; a procedure of the host hands on
closures but makes none, and the closures that it holds on to, if it was registered in a run, were
made in frames that are there. -/
def Handler.Scoped (h : Heap) : Handler → Prop
  | .script _ frame => frame < h.size
  | .host run inRun => ∀ P : Function → FrameId → Prop,
      (inRun = true → ∀ code frame, frame < h.size → P code frame) →
        (Handler.host run inRun).AllClosures P

variable {σ : Type}

/-- What was in the frames of `m` is the same in `m'`, up to assignments; those made meanwhile to
unknown names are noted in `m'`. -/
def Machine.Undisturbed (m m' : Machine σ) : Prop :=
  ∃ made, m'.unbound = made ++ m.unbound ∧ m.heap.Undisturbed made m'.heap

/-- Frames are nested, and every closure in reach was made in one that is there. -/
structure WellScoped (m : Machine σ) : Prop where
  nested : m.heap.Nested
  values : m.heap.AllClosures fun _ frame => frame < m.heap.size
  tasks : ∀ p ∈ m.tasks, p.2.handler.Scoped m.heap

/-! ### The discipline -/

lemma Handler.Scoped.mono {h h' : Heap} (hle : h.size ≤ h'.size) :
    ∀ {handler : Handler}, handler.Scoped h → handler.Scoped h'
  | .script _ _, hf => Nat.lt_of_lt_of_le hf hle
  | .host _ _, hrun => fun P hP => hrun P fun hinRun code frame hf =>
      hP hinRun code frame (Nat.lt_of_lt_of_le hf hle)

lemma Handler.Scoped.allClosures {h : Heap} {P : Function → FrameId → Prop}
    (hP : ∀ code frame, frame < h.size → P code frame) :
    ∀ {handler : Handler}, handler.Scoped h → handler.AllClosures P
  | .script code frame, hf => hP code frame hf
  | .host _ _, hrun => hrun P fun _ => hP

namespace WellScoped

variable {m m' : Machine σ}

/-- A change of the frames that makes none disappear. -/
lemma mapHeap (hm : WellScoped m) {f : Heap → Heap} (hle : m.heap.size ≤ Array.size (f m.heap))
    (hnested : (f m.heap).Nested)
    (hvalues : (f m.heap).AllClosures fun _ frame => frame < Array.size (f m.heap)) :
    WellScoped (m.mapHeap f) :=
  ⟨hnested, hvalues, fun p hp => (hm.tasks p hp).mono hle⟩

lemma child (hm : WellScoped m) {outer : List FrameId} (hn : (m.heap.child outer).Nested) :
    WellScoped (m.mapHeap (·.child outer)) := by
  have hle : m.heap.size ≤ Array.size (m.heap.child outer) := by
    rw [Heap.size_child]
    exact Nat.le_succ _
  refine hm.mapHeap hle hn ?_
  exact (hm.values.child outer).mono fun _ frame hf => Nat.lt_of_lt_of_le hf hle

lemma declare (hm : WellScoped m) {frame : FrameId} {name : String} {v : Value} {constant : Bool}
    (hv : m.heap.Covers v) : WellScoped (m.mapHeap (·.declare frame name v constant)) := by
  have hsize : Array.size (m.heap.declare frame name v constant) = m.heap.size :=
    Heap.size_declare ..
  refine hm.mapHeap (Nat.le_of_eq hsize.symm) (hm.nested.declare frame name v constant) ?_
  rw [hsize]
  exact hm.values.declare frame name hv constant

lemma register (hm : WellScoped m) {name description : String} {handler : Handler}
    (hhandler : handler.Scoped m.heap) :
    WellScoped { m with tasks := Keyed.put name ⟨description, handler⟩ m.tasks } :=
  ⟨hm.nested, hm.values,
    forall_put (A := fun p : String × Task => p.2.handler.Scoped m.heap) hhandler hm.tasks⟩

/-- What else changes does not matter. -/
lemma congr (hm : WellScoped m) (hheap : m'.heap = m.heap) (htasks : m'.tasks = m.tasks) :
    WellScoped m' := by
  refine ⟨?_, ?_, ?_⟩
  · rw [hheap]
    exact hm.nested
  · rw [hheap]
    exact hm.values
  · rw [hheap, htasks]
    exact hm.tasks

end WellScoped

/-- The discipline of scopes: all frames can be seen, those from `base` on can be declared in. -/
def scoping (σ : Type) (base : Nat) : Discipline σ where
  Inv m := WellScoped m ∧ base ≤ m.heap.size
  Step m m' := ∃ made, m'.unbound = made ++ m.unbound ∧ m.heap.Edits base made m'.heap
  refl _ := ⟨[], rfl, .refl⟩
  trans := by
    rintro _ _ _ ⟨made, hmade, h⟩ ⟨made', hmade', h'⟩
    refine ⟨made' ++ made, ?_, h.trans h'⟩
    rw [hmade', hmade, List.append_assoc]
  allowed h _ frame := frame < h.size
  later h P := ∀ code frame, frame < h.size → P code frame
  admits h _ handler := handler.Scoped h
  sees h frame := frame < h.size
  owns h frame := base ≤ frame ∧ frame < h.size
  ending := False

section

variable {base : Nat} {m m' : Machine σ}

lemma scoping_leads (hm : (scoping σ base).Inv m) {made : List (FrameId × String)}
    (hmade : m'.unbound = made ++ m.unbound) (hstep : m.heap.Edits base made m'.heap)
    (hm' : WellScoped m') : (scoping σ base).Leads m m' :=
  ⟨hm, ⟨made, hmade, hstep⟩, hm', Nat.le_trans hm.2 hstep.size_le⟩

lemma size_le_of_leads (h : (scoping σ base).Leads m m') : m.heap.size ≤ m'.heap.size := by
  obtain ⟨made, -, hstep⟩ := h.step
  exact hstep.size_le

/-- A step that has nothing to do with frames. -/
lemma scoping_stay (hm : (scoping σ base).Inv m) (hheap : m'.heap = m.heap)
    (hunbound : m'.unbound = m.unbound) (hm' : WellScoped m') : (scoping σ base).Leads m m' := by
  have hmade : m'.unbound = [] ++ m.unbound := hunbound
  exact scoping_leads hm hmade (hheap ▸ .refl) hm'

/-- What an assignment tells of is what it notes. -/
lemma unbound_noteUnbound (m : Machine σ) (frame : FrameId) (name : String) :
    (m.noteUnbound frame name).unbound = m.heap.unboundBy frame name ++ m.unbound := by
  unfold Machine.noteUnbound Heap.unboundBy
  cases (m.heap.holder? frame name).isNone <;> rfl

lemma lawful_scoping : (scoping σ base).Lawful where
  later_allowed _ _ _ hf := hf
  later_mono _ _ _ h hP code frame hf := hP code frame (Nat.lt_of_lt_of_le hf (size_le_of_leads h))
  of_later _ _ code frame hP hf := hP code frame hf
  sees_mono _ _ _ h hf := Nat.lt_of_lt_of_le hf (size_le_of_leads h)
  owns_mono _ _ _ h hf := ⟨hf.1, Nat.lt_of_lt_of_le hf.2 (size_le_of_leads h)⟩
  sees_of_owns _ _ h := h.2
  sees_of_allowed _ _ _ h := h
  heap _ h := h.1.values
  tasks _ h := h.1.tasks
  permits_of_admits _ _ _ h _ hP := h.allClosures hP
  admits_script _ _ _ _ hf := hf
  newFrame m frame h hf := by
    have hedit : m.heap.Edits base ([] ++ []) _ := .tail .refl (.enter hf)
    refine ⟨scoping_leads h rfl hedit (h.1.child (h.1.nested.enter hf)), h.2, ?_⟩
    rw [Heap.size_child]
    exact Nat.lt_succ_self _
  declare m _ name v constant h hf hv := by
    have hedit : m.heap.Edits base ([] ++ []) _ := .tail .refl (.declare name v constant hf.1)
    exact scoping_leads h rfl hedit (h.1.declare hv)
  assign m frame name v _ h hf hv hplace := by
    have hedit : m.heap.Edits base (m.heap.unboundBy frame name ++ []) _ :=
      .tail .refl (.assign v hf hplace)
    rw [List.append_nil] at hedit
    have hnoted : WellScoped (m.noteUnbound frame name) := h.1.congr rfl rfl
    exact scoping_leads h (unbound_noteUnbound m frame name) hedit (hnoted.declare hv)
  register _ _ _ _ h _ hhandler := scoping_stay h rfl rfl (h.1.register hhandler)
  line _ _ h := scoping_stay h rfl rfl (h.1.congr rfl rfl)
  cleared _ h := scoping_stay h rfl rfl (h.1.congr rfl rfl)
  slept _ _ h := scoping_stay h rfl rfl (h.1.congr rfl rfl)
  changed _ _ _ _ h := scoping_stay h rfl rfl (h.1.congr rfl rfl)
  read _ _ _ _ h := scoping_stay h rfl rfl (h.1.congr rfl rfl)
  deeper _ _ h := ⟨h.1.congr rfl rfl, h.2⟩
  shallower _ _ _ h h' := by
    obtain ⟨made, hmade, hstep⟩ := h'.step
    exact scoping_leads h hmade hstep (h'.after.1.congr rfl rfl)

lemma liberal_scoping : (scoping σ base).Liberal where
  allowed_of_sees _ _ _ h := h
  admits_host _ _ _ h P hP := h P (hP rfl)
  stray _ h := scoping_stay h rfl rfl (h.1.congr rfl rfl)
  cut h := h

end

/-! ### Reachable states -/

/-- The states that a run can come to, in any session: it begins without frames and with procedures
of the host for tasks, and each step of the evaluator leads on, as does the host when it registers a
procedure or begins another run. -/
inductive Reachable : Machine σ → Prop where
  | start {m : Machine σ} (hheap : m.heap = #[]) (htasks : ∀ p ∈ m.tasks, p.2.handler.Scoped #[]) :
      Reachable m
  /-- Neither the terminal nor the store nor the depth of calls matters. -/
  | elsewhere {m m' : Machine σ} (h : Reachable m) (hheap : m'.heap = m.heap)
      (htasks : m'.tasks = m.tasks) : Reachable m'
  /-- Frames are forgotten when no function of a script is registered. -/
  | forget {m : Machine σ} (h : Reachable m) (hhost : m.tasks.hostOnly = true) :
      Reachable { m with heap := #[] }
  | hostTask {m : Machine σ} (name description : String) (run : List Value → Action)
      (h : Reachable m) (hrun : ∀ P, (Handler.host run).AllClosures P) :
      Reachable { m with tasks := Keyed.put name ⟨description, .host run⟩ m.tasks }
  | root {m : Machine σ} (h : Reachable m) : Reachable (m.mapHeap fun heap => heap.root.2)
  | newFrame {m : Machine σ} {frame : FrameId} (h : Reachable m) (hf : frame < m.heap.size) :
      Reachable (Exec.newFrame frame m).2
  | declare {m : Machine σ} {frame : FrameId} {v : Value} (name : String) (constant : Bool)
      (h : Reachable m) (hv : m.heap.Covers v) :
      Reachable (Exec.declare frame name v constant m).2
  | assign {m : Machine σ} {frame : FrameId} {v : Value} (name : String)
      (h : Reachable m) (hf : frame < m.heap.size) (hv : m.heap.Covers v) :
      Reachable (Exec.assign frame name v m).2
  | eval {m : Machine σ} {frame : FrameId} (S : Backend σ) (fuel : Nat) (e : Expr)
      (h : Reachable m) (hf : frame < m.heap.size) : Reachable (eval S fuel frame e m).2
  | call {m : Machine σ} {f : Value} {args : List Value} (S : Backend σ) (fuel : Nat)
      (h : Reachable m) (hf : m.heap.Covers f) (hargs : ∀ v ∈ args, m.heap.Covers v) :
      Reachable (call S fuel f args m).2
  | invoke {m : Machine σ} {args : List Value} (S : Backend σ) (fuel : Nat) (name : String)
      (h : Reachable m) (hargs : ∀ v ∈ args, m.heap.Covers v) :
      Reachable (invoke S fuel name args m).2
  | exec {m : Machine σ} {frame : FrameId} (S : Backend σ) (fuel : Nat) (s : Stmt)
      (h : Reachable m) (hf : frame < m.heap.size) : Reachable (exec S fuel frame s m).2
  | block {m : Machine σ} {frame : FrameId} (S : Backend σ) (fuel : Nat) (stmts : List Stmt)
      (h : Reachable m) (hf : frame < m.heap.size) : Reachable (execBlock S fuel frame stmts m).2

lemma nested_empty : Heap.Nested #[] :=
  fun frame hf => absurd hf (Nat.not_lt_zero frame)

lemma allClosures_empty (P : Function → FrameId → Prop) : Heap.AllClosures P #[] :=
  fun frame hframe => by simp at hframe

/-- Procedures that were registered outside of runs are scoped wherever they were scoped once. -/
lemma scoped_of_hostOnly {tasks : Registry} {h h' : Heap} (hhost : tasks.hostOnly = true)
    (htasks : ∀ p ∈ tasks, p.2.handler.Scoped h) : ∀ p ∈ tasks, p.2.handler.Scoped h' := by
  intro p hp
  obtain ⟨run, hhandler⟩ := host_of_hostOnly hhost hp
  have hscoped := htasks p hp
  rw [hhandler] at hscoped ⊢
  exact fun P _ => hscoped P fun hinRun => by cases hinRun

theorem Reachable.wellScoped {m : Machine σ} (hm : Reachable m) : WellScoped m := by
  have hD : (scoping σ 0).Lawful := lawful_scoping
  have hsafe := evaluatorSafe hD liberal_scoping
  induction hm with
  | start hheap htasks =>
    refine ⟨?_, ?_, ?_⟩ <;> rw [hheap]
    · exact nested_empty
    · exact allClosures_empty _
    · exact htasks
  | elsewhere _ hheap htasks ih => exact ih.congr hheap htasks
  | forget _ hhost ih =>
    exact ⟨nested_empty, allClosures_empty _, scoped_of_hostOnly hhost ih.tasks⟩
  | hostTask name description run _ hrun ih => exact ih.register fun P _ => hrun P
  | root _ ih => exact ih.child ih.nested.root
  | newFrame _ hf ih => exact ih.child (ih.nested.enter hf)
  | declare name constant _ hv ih => exact ih.declare hv
  | @assign m frame v name _ hf hv ih =>
    have hnoted : WellScoped (m.noteUnbound frame name) := ih.congr rfl rfl
    unfold Exec.assign
    split
    · exact hnoted.declare hv
    · exact ih
  | eval S fuel e _ hf ih =>
    exact ((hsafe S fuel).eval _ _ e hf ⟨ih, Nat.zero_le _⟩).leads.after.1
  | call S fuel _ hf hargs ih =>
    exact ((hsafe S fuel).call _ _ _ hf hargs ⟨ih, Nat.zero_le _⟩).leads.after.1
  | invoke S fuel name _ hargs ih =>
    exact ((hsafe S fuel).invoke _ name _ hargs ⟨ih, Nat.zero_le _⟩).leads.after.1
  | exec S fuel s _ hf ih =>
    exact ((hsafe S fuel).exec _ _ s ⟨Nat.zero_le _, hf⟩ ⟨ih, Nat.zero_le _⟩).leads.after.1
  | block S fuel stmts _ hf ih =>
    exact ((hsafe S fuel).block _ _ stmts ⟨Nat.zero_le _, hf⟩ ⟨ih, Nat.zero_le _⟩).leads.after.1

/-! ### The frames behind a nested block or a call -/

/-- What begins where all frames are old leaves them undisturbed. -/
lemma WellScoped.undisturbed {α : Type} {m : Machine σ} (hm : WellScoped m) {x : Exec σ α}
    {Q : Heap → α → Prop} (hx : (scoping σ m.heap.size).Safe m x Q) : m.Undisturbed (x m).2 := by
  obtain ⟨made, hmade, hstep⟩ := (hx ⟨hm, Nat.le_refl _⟩).leads.step
  exact ⟨made, hmade, Heap.undisturbed_of_edits hm.nested hstep⟩

/-- **Scopes do not leak and constants hold against inner code.** In every state that a run can come
to, each of the following leaves the frames that are there undisturbed, however it ends: a block in
a scope of its own, the same with a variable (the round of a loop, the handler of a failure), a
statement that consists of such blocks, a call, and the invocation of a task. -/
theorem scopes_undisturbed {m : Machine σ} (hm : Reachable m) (S : Backend σ)
    (fuel : Nat) :
    (∀ frame < m.heap.size, ∀ body,
      m.Undisturbed ((do execBlock S fuel (← Exec.newFrame frame) body) m).2) ∧
    (∀ frame < m.heap.size, ∀ var v body, m.heap.Covers v →
      m.Undisturbed
        ((do
          let inner ← Exec.newFrame frame
          Exec.declare inner var v false
          execBlock S fuel inner body) m).2) ∧
    (∀ frame < m.heap.size, ∀ s : Stmt, s.nests = true →
      m.Undisturbed (exec S fuel frame s m).2) ∧
    (∀ f args, m.heap.Covers f → (∀ v ∈ args, m.heap.Covers v) →
      m.Undisturbed (call S fuel f args m).2) ∧
    (∀ name args, (∀ v ∈ args, m.heap.Covers v) →
      m.Undisturbed (invoke S fuel name args m).2) := by
  have hscoped := hm.wellScoped
  have hD : (scoping σ m.heap.size).Lawful := lawful_scoping
  have hsafe := evaluatorSafe hD liberal_scoping S fuel
  refine ⟨fun frame hf body => ?_, fun frame hf var v body hv => ?_, fun frame hf s hs => ?_,
    fun f args hf hargs => ?_, fun name args hargs => ?_⟩
  · exact hscoped.undisturbed (hsafe.inner hD body hf)
  · exact hscoped.undisturbed (hsafe.round hD var body hf hv)
  · exact hscoped.undisturbed (hsafe.nested m frame s hs hf)
  · exact hscoped.undisturbed (hsafe.call m f args hf hargs)
  · exact hscoped.undisturbed (hsafe.invoke m name args hargs)

/-- A state with a global frame in which nothing has been run. -/
def rooted : Machine Unit where
  heap := Heap.root #[] |>.2
  tasks := .builtin
  store := ()
  context := "a"

/-- The state behind a program that declares a constant. -/
def withConstant : Machine Unit :=
  (execBlock .willing 9 0 [.declare true "limit" (some (.str "old"))] rooted).2

/-- A block that declares a name, assigns to one that nothing binds, and fails when it assigns to
the constant. -/
def failingBlock : List Stmt :=
  [.declare false "own" (some (.str "y")), .assign (.ident "seen") (.str "x"),
    .assign (.ident "limit") (.str "new")]

/-- The state behind that block in a scope of its own. -/
def failed : Machine Unit :=
  ((do execBlock .willing 9 (← Exec.newFrame 0) failingBlock) withConstant).2

theorem scopes_undisturbed_failingBlock :
    Reachable withConstant ∧ 0 < withConstant.heap.size ∧ withConstant.Undisturbed failed ∧
      failed.unbound = [(1, "seen")] ∧ (failed.heap.binding? 0 "seen").isSome = true ∧
      (failed.heap.binding? 0 "own").isSome = false := by
  have hreach : Reachable withConstant := by
    have hstart : Reachable { rooted with heap := #[] } := by
      refine .start rfl fun p hp => ?_
      rw [List.mem_singleton.1 hp]
      exact fun P _ args _ => allClosures_scaffold args
    exact .block .willing 9 _ hstart.root (by decide)
  have hsize : 0 < withConstant.heap.size := by decide +kernel
  exact ⟨hreach, hsize, (scopes_undisturbed hreach .willing 9).1 0 hsize failingBlock,
    by decide +kernel, by decide +kernel, by decide +kernel⟩

end ScriptedNotes.Run
