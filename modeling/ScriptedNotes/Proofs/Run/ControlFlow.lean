import Mathlib.Tactic.Common
import ScriptedNotes.Proofs.Run.Functions
import ScriptedNotes.Session

/-!
Control flow of checked programs. The check of a program looks at each statement where it stands
(`placedStmts`); the evaluator hands jumps outwards until something takes them. Here the two are
brought together: a statement that stands in order ends only with a flow that its surroundings take
(`Flow.Fits`), so no jump leaves a program, and none the body of a call.
-/

namespace ScriptedNotes.Run

open Script Exec

/-- A function whose body stands in order. -/
def InOrder (code : Function) : Prop :=
  placedFunction code = .ok ()

/-- What a statement may end with in a place: with a return in a function, with a jump in a
loop. -/
def Flow.Fits (p : Place) : Flow → Prop
  | .normal => True
  | .return v => p.inFunction = true ∧ v.All InOrder
  | .break | .continue => p.inLoop = true

/-! ### The check, part by part -/

lemma ok_of_bind_ok {ε α : Type} {x : Except ε Unit} {y : Unit → Except ε α} {a : α}
    (h : x >>= y = .ok a) : x = .ok () ∧ y () = .ok a := by
  cases x with
  | error e => cases h
  | ok u => exact ⟨rfl, h⟩

/-- What checks a list member by member has checked every member. -/
lemma ok_of_mem {ε α : Type} {check : α → Except ε Unit} {checks : List α → Except ε Unit}
    (hcons : ∀ a as, checks (a :: as) = check a >>= fun _ => checks as) {as : List α}
    (h : checks as = .ok ()) : ∀ a ∈ as, check a = .ok () := by
  induction as with
  | nil => simp
  | cons a as ih =>
    rw [hcons] at h
    obtain ⟨ha, has⟩ := ok_of_bind_ok h
    exact List.forall_mem_cons.2 ⟨ha, ih has⟩

lemma placed_of_mem_exprs {es : List Expr} (h : placedExprs es = .ok ()) :
    ∀ e ∈ es, placedExpr e = .ok () :=
  ok_of_mem (fun _ _ => by rw [placedExprs]) h

lemma placed_of_mem_parts {parts : List TemplatePart} (h : placedParts parts = .ok ()) :
    ∀ part ∈ parts, placedPart part = .ok () :=
  ok_of_mem (fun _ _ => by rw [placedParts]) h

lemma placed_of_mem_stmts {p : Place} {stmts : List Stmt} (h : placedStmts p stmts = .ok ()) :
    ∀ s ∈ stmts, placedStmt p s = .ok () :=
  ok_of_mem (fun _ _ => by rw [placedStmts]) h

lemma placed_of_mem_branches {p : Place} {branches : List Branch}
    (h : placedBranches p branches = .ok ()) {condition : Expr} {body : List Stmt}
    (hmem : Branch.mk condition body ∈ branches) :
    placedExpr condition = .ok () ∧ placedStmts p body = .ok () := by
  have hb := ok_of_mem (fun _ _ => by rw [placedBranches]) h _ hmem
  exact ok_of_bind_ok (by simpa only [placedBranch] using hb)

/-! ### The invariant -/

variable {σ : Type}

/-- Every function in reach stands in order, and `n` bodies have ended with a stray jump. -/
structure Sound (n : Nat) (m : Machine σ) : Prop where
  all : m.All InOrder
  strays : m.strays = n

lemma functionInvariant_sound (n : Nat) : FunctionInvariant InOrder (Sound (σ := σ) n) where
  unbound _ _ h := ⟨⟨h.all.heap, h.all.tasks⟩, h.strays⟩
  output _ _ _ h := ⟨⟨h.all.heap, h.all.tasks⟩, h.strays⟩
  store _ _ _ h := ⟨⟨h.all.heap, h.all.tasks⟩, h.strays⟩
  depth _ _ _ h := ⟨⟨h.all.heap, h.all.tasks⟩, h.strays⟩
  all _ h := h.all
  heap _ _ h hf := ⟨⟨hf, h.all.tasks⟩, h.strays⟩
  tasks _ _ h hr := ⟨⟨h.all.heap, hr⟩, h.strays⟩

/-- A loop takes the jumps of its body. -/
lemma leaves_loop (p : Place) : Leaves (Flow.Fits p.loop) (Flow.Fits p) where
  normal := trivial
  left flow flow' h hl := by
    cases flow <;> cases hl
    · exact h
    · trivial

/-- The end of a body in order is no stray jump. -/
lemma keeps_endCall {n : Nat} {flow : Flow} (h : flow.Fits .function) :
    Keeps (Sound (σ := σ) n) (endCall flow) fun v => v.All InOrder := by
  refine keeps_step fun m hm => ?_
  cases flow with
  | normal => exact ⟨hm, .nil⟩
  | «return» v => exact ⟨hm, h.2⟩
  | «break» => cases h
  | «continue» => cases h

lemma keeps_targetOf {I : Machine σ → Prop} {Q : Value → Prop} {evalIndex : Expr → Exec σ Value}
    (hi : ∀ e, placedExpr e = .ok () → Keeps I (evalIndex e) Q) :
    ∀ (target : Expr) (path : List Key), placedExpr target = .ok () →
      Keeps I (targetOf evalIndex target path) fun _ => True
  | .ident _, _, _ => keeps_pure trivial
  | .member object property, path, h => keeps_targetOf hi object (.field property :: path) h
  | .index object index, path, h => by
    obtain ⟨ho, hx⟩ := ok_of_bind_ok (by simpa only [placedExpr] using h)
    exact (hi index hx).bind fun v _ => keeps_targetOf hi object (.index v :: path) ho
  | .number _, _, _ | .str _, _, _ | .template _, _, _ | .bool _, _, _ | .nil, _, _
  | .array _, _, _ | .unary _ _, _, _ | .binary _ _ _, _, _ | .call _ _, _, _
  | .lambda _, _, _ => keeps_throw _

/-! ### One level of the evaluator -/

/-- What is shown of the evaluator at one fuel: code that stands in order keeps the invariant, its
values hold functions in order only, and its statements end with flows that fit their place. -/
structure EvaluatorSound (S : Backend σ) (n fuel : Nat) : Prop where
  eval : ∀ frame e, placedExpr e = .ok () →
    Keeps (Sound n) (eval S fuel frame e) fun v => v.All InOrder
  call : ∀ (f : Value) (args : List Value), f.All InOrder → (∀ v ∈ args, v.All InOrder) →
    Keeps (Sound n) (call S fuel f args) fun v => v.All InOrder
  invoke : ∀ (name : String) (args : List Value), (∀ v ∈ args, v.All InOrder) →
    Keeps (Sound n) (invoke S fuel name args) fun v => v.All InOrder
  block : ∀ p frame stmts, placedStmts p stmts = .ok () →
    Keeps (Sound n) (execBlock S fuel frame stmts) (Flow.Fits p)
  exec : ∀ p frame s, placedStmt p s = .ok () →
    Keeps (Sound n) (exec S fuel frame s) (Flow.Fits p)

namespace EvaluatorSound

variable {S : Backend σ} {n fuel : Nat}

lemma zero (S : Backend σ) (n : Nat) : EvaluatorSound S n 0 where
  eval _ _ _ := keeps_unfinished
  call _ _ _ _ := keeps_unfinished
  invoke _ _ _ := keeps_unfinished
  block _ _ _ _ := keeps_unfinished
  exec _ _ _ _ := keeps_unfinished

lemma truth (ih : EvaluatorSound S n fuel) (frame : FrameId) {e : Expr}
    (h : placedExpr e = .ok ()) :
    Keeps (Sound n) (do return (← Run.eval S fuel frame e).isTruthy) fun _ => True :=
  (ih.eval frame e h).bind fun _ _ => keeps_pure trivial

lemma values (ih : EvaluatorSound S n fuel) (frame : FrameId) {es : List Expr}
    (h : placedExprs es = .ok ()) :
    Keeps (Sound n) (each (Run.eval S fuel frame) es) fun vs => ∀ v ∈ vs, v.All InOrder :=
  keeps_each es fun e he => ih.eval frame e (placed_of_mem_exprs h e he)

/-- Expressions, one case for each form. -/
lemma eval_succ (ih : EvaluatorSound S n fuel) (frame : FrameId) (e : Expr)
    (h : placedExpr e = .ok ()) :
    Keeps (Sound n) (Run.eval S (fuel + 1) frame e) fun v => v.All InOrder := by
  have hI := functionInvariant_sound (σ := σ) n
  cases e with
  | number x => exact keeps_pure (.number x)
  | str s => exact keeps_pure (.str s)
  | bool b => exact keeps_pure (.bool b)
  | nil => exact keeps_pure .nil
  | template parts =>
    refine (keeps_each (R := fun _ => True) parts fun part hpart => ?_).bind fun _ _ =>
      keeps_pure (.str _)
    have hp := placed_of_mem_parts (by simpa only [placedExpr] using h) part hpart
    cases part with
    | text s => exact keeps_pure trivial
    | expr e => exact (ih.eval frame e hp).bind fun _ _ => keeps_pure trivial
  | array items =>
    exact (ih.values frame (by simpa only [placedExpr] using h)).bind fun vs hvs =>
      keeps_pure (.array hvs)
  | ident name => exact hI.resolve frame name
  | unary op operand =>
    have ho : placedExpr operand = .ok () := by simpa only [placedExpr] using h
    cases op with
    | not => exact (ih.eval frame operand ho).bind fun _ _ => keeps_pure (.bool _)
    | neg =>
      refine (ih.eval frame operand ho).bind fun v _ => ?_
      exact (keeps_ofExcept (Q := fun _ => True) fun _ _ => trivial).bind fun _ _ =>
        keeps_pure (.number _)
  | binary op left right =>
    obtain ⟨hl, hr⟩ := ok_of_bind_ok (by simpa only [placedExpr] using h)
    have hright := ih.eval frame right hr
    refine (ih.eval frame left hl).bind fun l hlv => ?_
    have happly : Keeps (Sound n) (do ofExcept (applyBinary op l (← Run.eval S fuel frame right)))
        fun v => v.All InOrder :=
      hright.bind fun r hrv => keeps_ofExcept fun v hv => all_applyBinary hlv hrv hv
    cases op with
    | and =>
      dsimp only
      split
      · exact hright
      · exact keeps_pure hlv
    | or =>
      dsimp only
      split
      · exact keeps_pure hlv
      · exact hright
    | _ => exact happly
  | call callee args =>
    obtain ⟨hc, ha⟩ := ok_of_bind_ok (by simpa only [placedExpr] using h)
    have hcall : ∀ f : Value, f.All InOrder →
        Keeps (Sound n) (do Run.call S fuel f (← each (Run.eval S fuel frame) args))
          fun v => v.All InOrder := fun f hf =>
      (ih.values frame ha).bind fun vs hvs => ih.call f vs hf hvs
    cases callee with
    | ident name => exact (hI.resolveCallable frame name).bind hcall
    | _ => exact (ih.eval frame _ hc).bind hcall
  | member object property =>
    have ho : placedExpr object = .ok () := by simpa only [placedExpr] using h
    exact (ih.eval frame object ho).bind fun o hov =>
      keeps_ofExcept fun v hv => all_member hov hv
  | index object index =>
    obtain ⟨ho, hx⟩ := ok_of_bind_ok (by simpa only [placedExpr] using h)
    refine (ih.eval frame object ho).bind fun o hov => ?_
    exact (ih.eval frame index hx).bind fun i _ => keeps_ofExcept fun v hv => all_elementOf hov hv
  | lambda code => exact keeps_pure (.function frame (by simpa only [placedExpr, InOrder] using h))

lemma call_succ (ih : EvaluatorSound S n fuel) (f : Value) (args : List Value)
    (hf : f.All InOrder) (hargs : ∀ v ∈ args, v.All InOrder) :
    Keeps (Sound n) (Run.call S (fuel + 1) f args) fun v => v.All InOrder := by
  have hI := functionInvariant_sound (σ := σ) n
  cases hf with
  | @function code frame hcode =>
    obtain ⟨name, params, body⟩ := code
    have hbody : placedStmts .function body = .ok () := by
      simpa only [InOrder, placedFunction] using hcode
    refine hI.nested ((hI.newFrame frame).bind fun inner _ => ?_)
    refine (hI.bindParams inner params args hargs).bind fun _ _ => ?_
    exact (ih.block .function inner body hbody).bind fun flow hflow => keeps_endCall hflow
  | builtin b => exact hI.callBuiltin S hargs ih.invoke b
  | _ => exact keeps_throw _

lemma invoke_succ (ih : EvaluatorSound S n fuel) (name : String) (args : List Value)
    (hargs : ∀ v ∈ args, v.All InOrder) :
    Keeps (Sound n) (Run.invoke S (fuel + 1) name args) fun v => v.All InOrder := by
  have hI := functionInvariant_sound (σ := σ) n
  unfold Run.invoke
  refine hI.getTasks.bind fun r hr => ?_
  split
  · next code frame hk => exact ih.call _ args (.function frame (hr _ (mem_of_get? hk))) hargs
  · next run _ hk =>
    refine hI.perform S ih.call ih.invoke (hr _ (mem_of_get? hk) args fun v hv => ?_)
    exact Value.all_iff.1 (hargs v hv)
  · exact keeps_fail _

lemma block_succ (ih : EvaluatorSound S n fuel) (p : Place) (frame : FrameId) (stmts : List Stmt)
    (h : placedStmts p stmts = .ok ()) :
    Keeps (Sound n) (Run.execBlock S (fuel + 1) frame stmts) (Flow.Fits p) := by
  have hI := functionInvariant_sound (σ := σ) n
  have hmem := placed_of_mem_stmts h
  refine (hI.hoist frame stmts fun code hc => ?_).bind fun _ _ => ?_
  · simpa only [placedStmt, InOrder] using hmem _ hc
  · exact keeps_sequence trivial stmts fun s hs => ih.exec p frame s (hmem s hs)

/-- A block in a scope of its own. -/
lemma inner (ih : EvaluatorSound S n fuel) (frame : FrameId) {q : Place} {body : List Stmt}
    (hb : placedStmts q body = .ok ()) :
    Keeps (Sound n) (do Run.execBlock S fuel (← newFrame frame) body) (Flow.Fits q) :=
  ((functionInvariant_sound n).newFrame frame).bind fun f _ => ih.block q f body hb

/-- A block in a scope of its own with one variable. -/
lemma round (ih : EvaluatorSound S n fuel) (frame : FrameId) {q : Place} {var : String}
    {body : List Stmt} {v : Value} (hb : placedStmts q body = .ok ()) (hv : v.All InOrder) :
    Keeps (Sound n)
      (do let f ← newFrame frame
          declare f var v false
          Run.execBlock S fuel f body) (Flow.Fits q) :=
  have hI := functionInvariant_sound (σ := σ) n
  (hI.newFrame frame).bind fun f _ =>
    (hI.declare f var hv false).bind fun _ _ => ih.block q f body hb

lemma exec_cond (ih : EvaluatorSound S n fuel) (p : Place) (frame : FrameId)
    (branches : List Branch) (otherwise : Option (List Stmt))
    (h : placedStmt p (.cond branches otherwise) = .ok ()) :
    Keeps (Sound n) (Run.exec S (fuel + 1) frame (.cond branches otherwise)) (Flow.Fits p) := by
  have hcond : placedBranches p branches = .ok () ∧
      ∀ body, otherwise = some body → placedStmts p body = .ok () := by
    cases otherwise with
    | none => exact ⟨by simpa only [placedStmt] using h, by simp⟩
    | some body =>
      obtain ⟨hb, ho⟩ := ok_of_bind_ok (by simpa only [placedStmt] using h)
      exact ⟨hb, fun body' hbody => by cases hbody; exact ho⟩
  refine (keeps_first? branches fun b hb => ?_).bind fun r hr => ?_
  · obtain ⟨condition, body⟩ := b
    exact ih.truth frame (placed_of_mem_branches hcond.1 hb).1
  · split
    · next condition body =>
      exact ih.inner frame (placed_of_mem_branches hcond.1 (hr _ rfl)).2
    · exact ih.inner frame (hcond.2 _ rfl)
    · exact keeps_pure trivial

/-- Statements, one case for each form. -/
lemma exec_succ (ih : EvaluatorSound S n fuel) (p : Place) (frame : FrameId) (s : Stmt)
    (h : placedStmt p s = .ok ()) :
    Keeps (Sound n) (Run.exec S (fuel + 1) frame s) (Flow.Fits p) := by
  have hI := functionInvariant_sound (σ := σ) n
  cases s with
  | declare constant name value =>
    cases value with
    | none => exact (hI.declare frame name .nil constant).bind fun _ _ => keeps_pure trivial
    | some e =>
      refine (ih.eval frame e (by simpa only [placedStmt] using h)).bind fun v hv => ?_
      exact (hI.declare frame name hv constant).bind fun _ _ => keeps_pure trivial
  | assign target value =>
    obtain ⟨ht, hv⟩ := ok_of_bind_ok (by simpa only [placedStmt] using h)
    refine (ih.eval frame value hv).bind fun v hvv => ?_
    refine (keeps_targetOf (fun e he => ih.eval frame e he) target [] ht).bind fun r _ => ?_
    exact (hI.assignPath frame r.1 r.2 hvv).bind fun _ _ => keeps_pure trivial
  | expr e =>
    refine ((ih.eval frame e (by simpa only [placedStmt] using h)).map
      (R := fun _ => True) fun _ _ => trivial).bind fun _ _ => ?_
    exact keeps_pure trivial
  | cond branches otherwise => exact ih.exec_cond p frame branches otherwise h
  | forRange var start stop body =>
    obtain ⟨hs, h⟩ := ok_of_bind_ok (by simpa only [placedStmt] using h)
    obtain ⟨he, hb⟩ := ok_of_bind_ok h
    refine (ih.eval frame start hs).bind fun low _ => ?_
    refine (keeps_ofExcept (Q := fun _ => True) fun _ _ => trivial).bind fun low _ => ?_
    refine (ih.eval frame stop he).bind fun high _ => ?_
    refine (keeps_ofExcept (Q := fun _ => True) fun _ _ => trivial).bind fun high _ => ?_
    exact keeps_forNumbers (leaves_loop p) (fun x => ih.round frame hb (.number x)) fuel low
  | forEach var items body =>
    obtain ⟨hi, hb⟩ := ok_of_bind_ok (by simpa only [placedStmt] using h)
    refine (ih.eval frame items hi).bind fun v hv => ?_
    cases hv with
    | array hvs => exact keeps_forItems (leaves_loop p) _ fun v hv => ih.round frame hb (hvs v hv)
    | str s => exact keeps_forItems (leaves_loop p) _ fun c _ => ih.round frame hb (.str c.toString)
    | _ => exact keeps_throw _
  | «while» condition body =>
    obtain ⟨hc, hb⟩ := ok_of_bind_ok (by simpa only [placedStmt] using h)
    exact keeps_whileTrue (leaves_loop p) (ih.truth frame hc) (ih.inner frame hb) fuel
  | «try» body handler =>
    obtain ⟨hb, hh⟩ := ok_of_bind_ok (by simpa only [placedStmt] using h)
    refine (ih.inner frame hb).attempt.bind fun r hr => ?_
    cases r with
    | ok flow => exact keeps_pure (hr flow rfl)
    | error e => exact ih.round frame hh (Value.all_failure e.message)
  | function code => exact keeps_pure trivial
  | «return» value =>
    have hin : p.inFunction = true := by
      cases value <;> unfold placedStmt at h <;> split at h <;> first | assumption | cases h
    cases value with
    | none => exact keeps_pure ⟨hin, .nil⟩
    | some e =>
      rw [placedStmt, if_pos hin] at h
      exact (ih.eval frame e h).bind fun v hv => keeps_pure ⟨hin, hv⟩
  | throw e =>
    exact (ih.eval frame e (by simpa only [placedStmt] using h)).bind fun _ _ => keeps_throw _
  | «break» =>
    unfold placedStmt at h
    split at h
    · next hin => exact keeps_pure hin
    · cases h
  | «continue» =>
    unfold placedStmt at h
    split at h
    · next hin => exact keeps_pure hin
    · cases h

end EvaluatorSound

/-- **The evaluator keeps to the check**, whatever its fuel. -/
theorem evaluatorSound (S : Backend σ) (n : Nat) : ∀ fuel, EvaluatorSound S n fuel := by
  intro fuel
  induction fuel with
  | zero => exact .zero S n
  | succ fuel ih =>
    exact ⟨ih.eval_succ, ih.call_succ, ih.invoke_succ, ih.block_succ, ih.exec_succ⟩

end ScriptedNotes.Run

namespace ScriptedNotes

open Run Run.Exec Script

variable {σ : Type}

/-! ### Sessions -/

/-- A program that was compiled stands in order where nothing surrounds it. -/
lemma placed_of_compile {source : List Char} {script : Compiled}
    (h : compile source = .ok script) : placedStmts {} script.program = .ok () := by
  unfold compile at h
  dsimp only at h
  cases hp : programIn (Tier.ofSource (stripComments source)) (stripComments source) with
  | error e => rw [hp] at h; cases h
  | ok program =>
    rw [hp] at h
    obtain ⟨hplaced, hscript⟩ := ok_of_bind_ok h
    cases hscript
    exact hplaced

/-- The run of a compiled program ends normally if it ends with a value at all. -/
lemma keeps_runProgram (S : Backend σ) (n fuel : Nat) {source : List Char} {script : Compiled}
    (h : compile source = .ok script) :
    Keeps (Sound n) (runProgram S fuel script.program) fun flow => flow = .normal := by
  intro m hm
  have hroot : Sound n { m with heap := m.heap.root.2 } :=
    ⟨⟨hm.all.heap.root, hm.all.tasks⟩, hm.strays⟩
  obtain ⟨h1, h2⟩ :=
    (evaluatorSound S n fuel).block {} m.heap.root.1 _ (placed_of_compile h) _ hroot
  refine ⟨h1, fun flow hflow => ?_⟩
  have hfits := h2 flow hflow
  cases flow with
  | normal => rfl
  | «return» v => exact absurd hfits.1 (by decide)
  | «break» => cases hfits
  | «continue» => cases hfits

/-- Whatever a context shows around its script keeps the invariant as well. -/
lemma keeps_contextRun (host : Host σ) (n : Nat) (source : List Char) :
    Keeps (Sound n) (contextRun host (compile source)) fun _ => True := by
  have hI := functionInvariant_sound (σ := σ) n
  have hhook : ∀ hook : Hook σ, Keeps (Sound n) (refreshStep hook) fun _ => True := by
    intro hook
    refine (hI.emit _ _).bind fun _ _ => (hI.record _).bind fun _ _ =>
      hI.callStore.bind fun r _ => ?_
    cases r with
    | ok u => exact hI.emit _ _
    | error f => exact hI.emit _ _
  refine hI.clear.bind fun _ _ => ?_
  cases hc : compile source with
  | error e => exact (hI.emit _ _).bind fun _ _ => keeps_pure trivial
  | ok script =>
    have hscript : Keeps (Sound n) (runScript host.backend host.fuel script) fun _ => True := by
      refine (keeps_runProgram host.backend n host.fuel hc).attempt.bind fun r _ => ?_
      cases r with
      | ok flow => exact keeps_pure trivial
      | error e =>
        dsimp only
        split
        · exact (hI.emit _ _).bind fun _ _ => keeps_fail e
        · exact keeps_fail e
    refine (hI.emit _ _).bind fun _ _ => hscript.attempt.bind fun r _ => ?_
    cases r with
    | error e => exact (hI.emit _ _).bind fun _ _ => keeps_pure trivial
    | ok u =>
      refine (hI.emit _ _).bind fun _ _ => ?_
      dsimp only
      split
      · next hook _ => exact (hhook hook).bind fun _ _ => keeps_pure trivial
      · exact keeps_pure trivial

namespace Session

/-- The sessions that come about when a host registers procedures of its own, runs sources that it
compiles, and invokes tasks. Tasks of scripts get into such a session by running sources only. -/
inductive Reached : Session σ → Prop where
  | start (store : σ) (tasks : Registry) (journal : Array Event) (hhost : tasks.hostOnly = true)
      (htasks : tasks.All InOrder) : Reached ⟨store, tasks, #[], journal⟩
  | register {s : Session σ} (name description : String) (run : List Value → Action)
      (hs : Reached s) (hrun : (Handler.host run).All InOrder) :
      Reached (s.registerTask name description (.host run))
  | execute {s : Session σ} (host : Host σ) (c : Context) (source : List Char) (hs : Reached s)
      (hc : c.compiled = compile source) : Reached (s.execute host c).2
  | invoke {s : Session σ} (host : Host σ) (name : String) (args : List Value) (hs : Reached s)
      (hargs : ∀ v ∈ args, v.All InOrder) : Reached (s.invokeTask host name args).2

/-- A session whose functions all stand in order. -/
structure Sound (s : Session σ) : Prop where
  heap : s.heap.All InOrder
  tasks : s.tasks.All InOrder

lemma Sound.machine {s : Session σ} (hs : s.Sound) (context : String) (terminal : Terminal) :
    Run.Sound 0 (s.machine context terminal) := by
  refine ⟨⟨?_, hs.tasks⟩, rfl⟩
  unfold Session.machine
  dsimp only
  split
  · exact fun f hf => absurd hf (by simp)
  · exact hs.heap

lemma sound_resume (s : Session σ) {m : Machine σ} (hm : Run.Sound 0 m) : (s.resume m).Sound :=
  ⟨hm.all.heap, hm.all.tasks⟩

lemma Reached.sound {s : Session σ} (hs : s.Reached) : s.Sound := by
  induction hs with
  | start store tasks journal _ htasks =>
    exact ⟨fun f hf => absurd hf (by simp), htasks⟩
  | register name description run _ hrun ih =>
    exact ⟨ih.heap, forall_put (A := fun p : String × Task => p.2.handler.All InOrder) hrun
      ih.tasks⟩
  | @execute s host c source _ hc ih =>
    have hm := (keeps_contextRun host 0 source _ (ih.machine c.id c.terminal)).1
    unfold Session.execute
    rw [hc]
    split <;> next heq => rw [heq] at hm; exact sound_resume s hm
  | @invoke s host name args _ hargs ih =>
    have hm := ((evaluatorSound host.backend 0 host.fuel).invoke name args hargs _
      (ih.machine ("task:" ++ name) {})).1
    unfold Session.invokeTask
    dsimp only
    split <;> next heq => rw [heq] at hm; exact sound_resume s hm

/-- **No jump gets lost.** In every session that compiled sources lead to, the program of a compiled
source ends normally or with an error, and neither in its run nor in that of a task does the body of
a call end with a break or continue. -/
theorem control_flow_taken {s : Session σ} (hs : s.Reached) (S : Backend σ) (fuel : Nat)
    (context : String) (terminal : Terminal) :
    (∀ source script, compile source = .ok script →
      ∀ r m, runProgram S fuel script.program (s.machine context terminal) = (r, m) →
        (∀ flow, r = .value flow → flow = .normal) ∧ m.strays = 0) ∧
    (∀ name args, (∀ v ∈ args, v.All InOrder) →
      ∀ r m, invoke S fuel name args (s.machine context terminal) = (r, m) → m.strays = 0) := by
  have hm := hs.sound.machine context terminal
  constructor
  · intro source script hc r m hrun
    obtain ⟨h1, h2⟩ := keeps_runProgram S 0 fuel hc _ hm
    rw [hrun] at h1 h2
    exact ⟨h2, h1.strays⟩
  · intro name args hargs r m hrun
    have h1 := ((evaluatorSound S 0 fuel).invoke name args hargs _ hm).1
    rw [hrun] at h1
    exact h1.strays

/-- A fresh session after a run that registers a task. -/
def withScriptTask : Session Unit :=
  (({ store := () } : Session Unit).execute (.willing 60)
    (.ofSource "a" "registerTask(\"id\", \"\", fn(f) => f)".toList)).2

/-- A loop that calls what the task gives back and is left with a break. -/
def loopWithTask : List Char :=
  "for f in [x => x] \x7b runTask(\"id\", f)(f) break \x7d".toList

/-- Whether a source is a script that ends without an error behind that run. -/
def endsWell (source : List Char) : Bool :=
  match compile source with
  | .error _ => false
  | .ok script =>
    match (runProgram .willing 60 script.program (withScriptTask.machine "b" {})).1 with
    | .value _ => true
    | _ => false

theorem control_flow_taken_withScriptTask : withScriptTask.Reached ∧
    ∃ script, compile loopWithTask = .ok script ∧
      ∀ r m, runProgram .willing 60 script.program (withScriptTask.machine "b" {}) =
        (r, m) → r = .value .normal ∧ m.strays = 0 := by
  have hs : withScriptTask.Reached :=
    .execute (.willing 60) _ _ (.start () .builtin #[] (by decide) all_builtin) rfl
  have hc : ∃ script, compile loopWithTask = .ok script ∧
      ∃ flow, (runProgram .willing 60 script.program
        (withScriptTask.machine "b" {})).1 = .value flow := by
    have hends : endsWell loopWithTask = true := by decide +kernel
    unfold endsWell at hends
    split at hends
    · cases hends
    · next script hscript =>
      split at hends
      · next flow hflow => exact ⟨script, hscript, flow, hflow⟩
      · cases hends
  obtain ⟨script, hscript, flow, hflow⟩ := hc
  refine ⟨hs, script, hscript, fun r m hrun => ?_⟩
  obtain ⟨hnormal, hstrays⟩ :=
    (control_flow_taken hs .willing 60 "b" {}).1 _ script hscript r m hrun
  rw [hrun] at hflow
  have hr : r = .value flow := hflow
  rw [hr, hnormal flow hr]
  exact ⟨rfl, hstrays⟩

/-- The count of stray jumps is not idle: a function that the check turns down adds to it. -/
example : (call .willing 9 (.function (.mk none [] [.break]) 0) []
    (withScriptTask.machine "b" {})).2.strays = 1 := by
  decide +kernel

end Session

end ScriptedNotes
