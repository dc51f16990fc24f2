import Mathlib.Tactic.Common
import ScriptedNotes.Proofs.Run.Bounded
import ScriptedNotes.Proofs.Run.Forms

/-!
Bounded programs end. The measure has two parts. A call of a function of a script goes one level
deeper, and there are finitely many levels (`blocks_halt`, by induction on those that are left); at
one level, with calls out of the way, the evaluator goes through the parts of the code
(`evaluatorHalts`, by induction on its size). Whether a function is called directly, through a
variable, as a task, from a handler of failures or by a procedure of the host makes no difference:
its code is bounded, and it is called at the level of the caller. Procedures of the host run tasks
at their own level; there the rank of the tasks falls (`invoke_halts`).
-/

namespace ScriptedNotes.Run

open Script Discipline

variable {σ : Type} {S : Backend σ} {rank : String → List Value → Nat}

/-- Bounded blocks halt when they begin at a depth. -/
def BlocksHalt (S : Backend σ) (rank : String → List Value → Nat) (depth : Nat) : Prop :=
  ∀ (m : Machine σ) frame stmts, m.depth = depth → boundedStmts stmts = true →
    (bounding σ rank).Halts m (fun fuel => execBlock S fuel frame stmts) (bounding σ rank).FairFlow

/-- Calls of bounded functions halt when they are made at a depth. -/
def CallsHalt (S : Backend σ) (rank : String → List Value → Nat) (depth : Nat) : Prop :=
  ∀ (m : Machine σ) f args, m.depth = depth → (bounding σ rank).Fair m.heap f →
    (bounding σ rank).FairAll m.heap args →
    (bounding σ rank).Halts m (fun fuel => call S fuel f args) (bounding σ rank).Fair

/-! ### Calls -/

/-- Tasks apart, a function that every script knows does not look at how tasks are invoked. -/
lemma callBuiltin_congr {invoke invoke' : String → List Value → Exec σ Value} {b : Builtin}
    (hb : b ≠ .runTask) (args : List Value) :
    Exec.callBuiltin S invoke b args = Exec.callBuiltin S invoke' b args := by
  cases b <;> first | rfl | exact absurd rfl hb

section

variable {depth : Nat}

/-- A call of a function of a script runs a block one level deeper, or none at all. -/
lemma function_halts (hblocks : depth < maxDepth → BlocksHalt S rank (depth + 1)) (m : Machine σ)
    {code : Function} (frame : FrameId) {args : List Value} (hdepth : m.depth = depth)
    (hcode : boundedFunction code = true) (hargs : (bounding σ rank).FairAll m.heap args) :
    (bounding σ rank).Halts m (fun fuel => call S fuel (.function code frame) args)
      (bounding σ rank).Fair := by
  refine Halts.succ (halts_callFunction lawful_bounding
    (fun _ h => bounding_stay h rfl rfl rfl) hcode hargs fun m' inner hlt hlead _ => ?_)
  have hdeeper : m'.depth = depth + 1 := by
    calc m'.depth = m.deeper.depth := hlead.step
      _ = depth + 1 := by rw [← hdepth]; rfl
  have hbody : boundedStmts code.body = true := by
    obtain ⟨name, params, body⟩ := code
    simp only [boundedFunction] at hcode
    exact hcode
  exact hblocks (hdepth ▸ hlt) m' inner code.body hdeeper hbody

/-- A value is called: a function of a script, or one that every script knows. Of these only the one
that runs tasks has a use for the fuel. -/
lemma call_halts (hblocks : depth < maxDepth → BlocksHalt S rank (depth + 1)) (m : Machine σ)
    {f : Value} {args : List Value} (hdepth : m.depth = depth)
    (hf : (bounding σ rank).Fair m.heap f) (hargs : (bounding σ rank).FairAll m.heap args)
    (hinvoke : ∀ name rest, f = .builtin .runTask → args = .str name :: rest →
      (bounding σ rank).Halts m (fun fuel => invoke S fuel name rest) (bounding σ rank).Fair) :
    (bounding σ rank).Halts m (fun fuel => call S fuel f args) (bounding σ rank).Fair := by
  have hD : (bounding σ rank).Lawful := lawful_bounding
  cases hf with
  | @function code frame hcode => exact function_halts hblocks m frame hdepth hcode hargs
  | builtin b =>
    refine Halts.succ ?_
    simp only [call]
    by_cases hb : b = .runTask
    · subst hb
      simp only [Exec.callBuiltin]
      split
      · next name rest => exact hinvoke name rest rfl rfl
      · exact halts_throw _
    · have hsafe : (bounding σ rank).Safe m
          (Exec.callBuiltin S (fun _ _ => Exec.throw "") b args) (bounding σ rank).Fair :=
        hD.safe_callBuiltin S hargs (fun _ _ _ => safe_throw "") b
      have heq : (fun fuel => Exec.callBuiltin S (invoke S fuel) b args) =
          fun _ => Exec.callBuiltin S (fun _ _ => Exec.throw "") b args :=
        funext fun fuel => callBuiltin_congr hb args
      rw [heq]
      exact hsafe.halts
  | _ => exact Halts.succ (halts_throw _)

/-- A task is run, by induction on its rank: a function of a script goes one level deeper, and a
procedure of the host runs lower tasks. -/
theorem invoke_halts (hblocks : depth < maxDepth → BlocksHalt S rank (depth + 1)) (m : Machine σ)
    (name : String) {args : List Value} (hdepth : m.depth = depth)
    (hargs : (bounding σ rank).FairAll m.heap args) :
    (bounding σ rank).Halts m (fun fuel => invoke S fuel name args) (bounding σ rank).Fair := by
  have hD : (bounding σ rank).Lawful := lawful_bounding
  induction hn : rank name args using Nat.strongRecOn generalizing m name args with
  | _ n ih =>
    refine Halts.succ (halts_invoke hD name hargs (fun m' _ frame hlead hcode hargs' => ?_)
      fun m' run inRun hlead hadmits hargs' => ?_)
    · exact function_halts hblocks m' frame (hlead.step.trans hdepth) hcode hargs'
    · have hlower : (run args).Descends rank n := hn ▸ hadmits.2 args
      have hpermits : (bounding σ rank).Permits m'.heap (run args) := by
        rintro P rfl
        exact hadmits.1 args hargs'
      have hlevel : ∀ {m''}, (bounding σ rank).Leads m' m'' → m''.depth = depth := fun h =>
        h.step.trans (hlead.step.trans hdepth)
      refine halts_perform hD S hpermits ⟨fun m'' f vs next h hreach hf hvs => ?_,
        fun m'' other vs next h hreach hvs => ?_,
        fun m'' other description run' next h hreach hrun => ?_⟩
      · refine call_halts hblocks m'' (hlevel h) hf hvs fun other rest hrunTask hname => ?_
        subst hrunTask hname
        have hrest : (bounding σ rank).FairAll m''.heap rest := fun v hv => hvs v (by simp [hv])
        exact ih _ (hlower.runsBelow hreach) m'' other (hlevel h) hrest rfl
      · exact ih _ (hlower.runsBelow hreach) m'' other (hlevel h) hvs rfl
      · exact ⟨hrun _ rfl, hlower.registered hreach⟩

lemma calls_halt (hblocks : depth < maxDepth → BlocksHalt S rank (depth + 1)) :
    CallsHalt S rank depth := by
  intro m f args hdepth hf hargs
  refine call_halts hblocks m hdepth hf hargs fun name rest _ hname => ?_
  subst hname
  exact invoke_halts hblocks m name hdepth fun v hv => hargs v (by simp [hv])

end

/-! ### One level -/

/-- What is shown of the code at one depth that is smaller than a size. -/
structure EvaluatorHalts (S : Backend σ) (rank : String → List Value → Nat) (depth size : Nat) :
    Prop where
  eval : ∀ (m : Machine σ) frame e, sizeOf e < size → m.depth = depth → boundedExpr e = true →
    (bounding σ rank).Halts m (fun fuel => eval S fuel frame e) (bounding σ rank).Fair
  block : ∀ (m : Machine σ) frame stmts, sizeOf stmts < size → m.depth = depth →
    boundedStmts stmts = true →
    (bounding σ rank).Halts m (fun fuel => execBlock S fuel frame stmts) (bounding σ rank).FairFlow
  exec : ∀ (m : Machine σ) frame s, sizeOf s < size → m.depth = depth → boundedStmt s = true →
    (bounding σ rank).Halts m (fun fuel => exec S fuel frame s) (bounding σ rank).FairFlow

namespace EvaluatorHalts

variable {depth size : Nat}

lemma eval_succ (ih : EvaluatorHalts S rank depth size) (hcalls : CallsHalt S rank depth)
    (m : Machine σ) (frame : FrameId) (e : Expr) (hsize : sizeOf e < size + 1)
    (hdepth : m.depth = depth) (he : boundedExpr e = true) :
    (bounding σ rank).Halts m (fun fuel => Run.eval S fuel frame e) (bounding σ rank).Fair := by
  refine Halts.succ (halts_eval lawful_bounding (fun e' hmem m' hlead => ?_)
    (fun m' f args hlead => hcalls m' f args (hlead.step.trans hdepth)) fun code hcode => ?_)
  · have hlt := Expr.sizeOf_lt_of_mem_parts hmem
    exact ih.eval m' frame e' (by omega) (hlead.step.trans hdepth) (bounded_parts he e' hmem)
  · subst hcode
    simp only [boundedExpr] at he
    exact he

lemma block_succ (ih : EvaluatorHalts S rank depth size) (m : Machine σ) (frame : FrameId)
    (stmts : List Stmt) (hsize : sizeOf stmts < size + 1) (hdepth : m.depth = depth)
    (hstmts : boundedStmts stmts = true) :
    (bounding σ rank).Halts m (fun fuel => Run.execBlock S fuel frame stmts)
      (bounding σ rank).FairFlow := by
  have hbounded := bounded_of_mem_stmts hstmts
  refine Halts.succ (halts_block lawful_bounding trivial (fun code hmem => ?_)
    fun s hmem m' hlead => ?_)
  · have hcode := hbounded _ hmem
    simp only [boundedStmt] at hcode
    exact hcode
  · have hlt := List.sizeOf_lt_of_mem hmem
    exact ih.exec m' frame s (by omega) (hlead.step.trans hdepth) (hbounded s hmem)

lemma exec_succ (ih : EvaluatorHalts S rank depth size) (m : Machine σ) (frame : FrameId) (s : Stmt)
    (hsize : sizeOf s < size + 1) (hdepth : m.depth = depth) (hs : boundedStmt s = true) :
    (bounding σ rank).Halts m (fun fuel => Run.exec S fuel frame s) (bounding σ rank).FairFlow := by
  refine Halts.succ (halts_exec lawful_bounding trivial (fun _ => trivial) (bounded_repeats hs)
    (fun e hmem m' hlead => ?_) fun body hmem m' f hlead _ => ?_)
  · have hlt := Stmt.sizeOf_lt_of_mem_exprs hmem
    exact ih.eval m' frame e (by omega) (hlead.step.trans hdepth) (bounded_exprs hs e hmem)
  · have hlt := Stmt.sizeOf_lt_of_mem_blocks hmem
    exact ih.block m' f body (by omega) (hlead.step.trans hdepth) (bounded_blocks hs body hmem)

end EvaluatorHalts

/-- At a depth at which calls halt, code of every size does. -/
theorem evaluatorHalts {depth : Nat} (hcalls : CallsHalt S rank depth) (size : Nat) :
    EvaluatorHalts S rank depth size := by
  induction size with
  | zero => exact ⟨fun _ _ _ h => by omega, fun _ _ _ h => by omega, fun _ _ _ h => by omega⟩
  | succ size ih => exact ⟨ih.eval_succ hcalls, ih.block_succ, ih.exec_succ⟩

/-! ### All levels -/

/-- **Bounded blocks halt at every depth**, by induction on the levels that are left. -/
theorem blocks_halt (S : Backend σ) (rank : String → List Value → Nat) (left : Nat) :
    ∀ depth, maxDepth ≤ depth + left → BlocksHalt S rank depth := by
  induction left with
  | zero =>
    intro depth hleft m frame stmts hdepth hstmts
    have hcalls : CallsHalt S rank depth := calls_halt fun hlt => by omega
    exact (evaluatorHalts hcalls _).block m frame stmts (Nat.lt_succ_self _) hdepth hstmts
  | succ left ih =>
    intro depth hleft m frame stmts hdepth hstmts
    have hcalls : CallsHalt S rank depth := calls_halt fun _ => ih (depth + 1) (by omega)
    exact (evaluatorHalts hcalls _).block m frame stmts (Nat.lt_succ_self _) hdepth hstmts

/-- **The limit on the depth of calls makes recursion total.** When every function in reach is
bounded, the run of a bounded program and the invocation of a task come to an end, the same from
some fuel on: whatever calls what, and however often failures are caught and calls made again. -/
theorem bounded_runs_end (S : Backend σ) {m : Machine σ} (hm : AllBounded rank m) :
    (∀ program, boundedStmts program = true → ∃ r m', r ≠ .unfinished ∧
      ∃ n, ∀ fuel ≥ n, runProgram S fuel program m = (r, m')) ∧
    (∀ name args, (∀ v ∈ args, v.AllClosures Bounded) → ∃ r m', r ≠ .unfinished ∧
      ∃ n, ∀ fuel ≥ n, invoke S fuel name args m = (r, m')) := by
  have hblocks : ∀ depth, BlocksHalt S rank depth := fun depth =>
    blocks_halt S rank maxDepth depth (Nat.le_add_left _ _)
  constructor
  · intro program hprogram
    have hroot : AllBounded rank (m.mapHeap fun h => h.root.2) := hm.mapHeap (hm.heap.child [])
    obtain ⟨⟨r, m'⟩, hends, hfuel⟩ :=
      hblocks m.depth (m.mapHeap fun h => h.root.2) m.heap.root.1 program rfl hprogram hroot
    exact ⟨r, m', hends.finished trivial, hfuel⟩
  · intro name args hargs
    obtain ⟨⟨r, m'⟩, hends, hfuel⟩ :=
      invoke_halts (fun _ => hblocks (m.depth + 1)) m name rfl hargs hm
    exact ⟨r, m', hends.finished trivial, hfuel⟩

/-- A function that calls itself, and once more when that fails, registered as a task, which a task
of the host runs. -/
def retrying : Program :=
  [.function (.mk (some "f") []
    [.try [.expr (.callNamed "f" [])] [.expr (.callNamed "runTask" [.str "again"])]]),
   .expr (.callNamed "registerTask" [.str "again", .nil, .ident "f"]),
   .expr (.callNamed "runTask" [.str "twice", .ident "f"])]

/-- Calls the function that it is given and runs a task, whatever has become of the call. -/
def twice : List Value → Action
  | [] => .throw "no function"
  | f :: _ => .ask (.call f []) fun _ => .ask (.invoke "again" []) fun
    | .ok v => .done v
    | .error e => .fail e

/-- A state in which nothing has been run. -/
def unused : Machine Unit where
  tasks := Keyed.put "twice" ⟨"", .host twice⟩ Registry.builtin
  store := ()
  context := "a"

/-- The task of the host stands above the one that it runs. -/
def twiceAbove (name : String) (_ : List Value) : Nat :=
  if name = "twice" then 1 else 0

theorem bounded_runs_end_retrying :
    AllBounded twiceAbove unused ∧ boundedStmts retrying = true ∧ ∃ r m', r ≠ .unfinished ∧
      ∃ n, ∀ fuel ≥ n, runProgram .willing fuel retrying unused = (r, m') := by
  have htwice : (Handler.host twice).AllClosures Bounded ∧
      (Handler.host twice).Descends twiceAbove "twice" := by
    constructor
    · rintro (_ | ⟨f, rest⟩) hargs
      · exact .fail _
      · refine .ask ⟨hargs f (by simp), by simp⟩ fun _ _ => .ask (by simp [Request.AllClosures]) ?_
        rintro (e | v) hreply
        · exact .fail e
        · exact .done (hreply v rfl)
    · rintro (_ | ⟨f, rest⟩)
      · exact .fail _
      · refine .ask ?_ fun _ => .ask Nat.zero_lt_one ?_
        · cases f with
          | builtin b => cases b <;> exact trivial
          | _ => exact trivial
        · rintro (e | v)
          · exact .fail e
          · exact .done v
  have hunused : AllBounded twiceAbove unused :=
    AllBounded.register (m := { unused with tasks := Registry.builtin })
      ⟨fun f hf => by simp [unused] at hf, allClosures_builtin, descends_builtin _⟩
      htwice.1 htwice.2
  have hretrying : boundedStmts retrying = true := rfl
  exact ⟨hunused, hretrying, (bounded_runs_end _ hunused).1 retrying hretrying⟩

end ScriptedNotes.Run
