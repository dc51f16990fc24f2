import Mathlib.Tactic.Common
import ScriptedNotes.Proofs.Run.Forms

/-!
Whole runs under a discipline. A liberal discipline lets every function stand in values whose frame
can be seen, and does not ask that computations end. The evaluator observes every lawful and liberal
discipline, whatever its fuel: by induction on the fuel, for the forms of expressions and statements
at a fixed amount of it. Statements that open scopes of their own need to see their frame only; the
others declare names in it.
-/

namespace ScriptedNotes.Run

open Script (Stmt Expr)

variable {σ : Type} {D : Discipline σ}

/-- Every closure whose frame can be seen may stand in values, a run may register every procedure
that brings in such closures only, a jump may get lost at the end of a call, and a run may be cut
short. -/
structure Discipline.Liberal (D : Discipline σ) : Prop where
  allowed_of_sees : ∀ h code frame, D.sees h frame → D.allowed h code frame
  admits_host : ∀ h name run, D.PermitsHandler h (.host run true) → D.admits h name (.host run true)
  stray : ∀ m, D.Inv m → D.Leads m { m with strays := m.strays + 1 }
  cut : ¬ D.ending

/-- What is shown of the evaluator at one fuel. -/
structure EvaluatorSafe (D : Discipline σ) (S : Backend σ) (fuel : Nat) : Prop where
  eval : ∀ (m : Machine σ) frame e, D.sees m.heap frame →
    D.Safe m (eval S fuel frame e) D.Fair
  call : ∀ (m : Machine σ) f args, D.Fair m.heap f → D.FairAll m.heap args →
    D.Safe m (call S fuel f args) D.Fair
  invoke : ∀ (m : Machine σ) name args, D.FairAll m.heap args →
    D.Safe m (invoke S fuel name args) D.Fair
  block : ∀ (m : Machine σ) frame stmts, D.owns m.heap frame →
    D.Safe m (execBlock S fuel frame stmts) D.FairFlow
  /-- What runs in scopes of its own does not declare names in its frame. -/
  nested : ∀ (m : Machine σ) frame s, s.nests = true → D.sees m.heap frame →
    D.Safe m (exec S fuel frame s) D.FairFlow
  exec : ∀ (m : Machine σ) frame s, D.owns m.heap frame →
    D.Safe m (exec S fuel frame s) D.FairFlow

namespace EvaluatorSafe

open Discipline

variable {S : Backend σ} {fuel : Nat}

lemma zero (hL : D.Liberal) (S : Backend σ) : EvaluatorSafe D S 0 where
  eval _ _ _ _ := safe_unfinished hL.cut
  call _ _ _ _ _ := safe_unfinished hL.cut
  invoke _ _ _ _ := safe_unfinished hL.cut
  block _ _ _ _ := safe_unfinished hL.cut
  exec _ _ _ _ := safe_unfinished hL.cut
  nested _ _ _ _ _ := safe_unfinished hL.cut

variable {m : Machine σ} {frame : FrameId} (ih : EvaluatorSafe D S fuel)

include ih

/-- What a procedure of the host asks for. -/
lemma supports (hL : D.Liberal) (m : Machine σ) (a : Action) :
    D.Supports (fun _ : Nat => Run.call S fuel) (fun _ => Run.invoke S fuel) m a where
  call m' f args _ _ _ hf hargs := (ih.call m' f args hf hargs).halts
  invoke m' name args _ _ _ hargs := (ih.invoke m' name args hargs).halts
  register _ name _ run _ _ _ hrun := hL.admits_host _ name run hrun

variable (hD : D.Lawful)

include hD

lemma eval_succ (hL : D.Liberal) (m : Machine σ) (frame : FrameId) (e : Expr)
    (h : D.sees m.heap frame) : D.Safe m (Run.eval S (fuel + 1) frame e) D.Fair := by
  refine halts_const_iff.1 (halts_eval hD (fun e' _ m' hlead => ?_) (fun m' f args _ hf hargs => ?_)
    fun code _ => hL.allowed_of_sees _ code frame h)
  · exact (ih.eval m' frame e' (hlead.sees hD h)).halts
  · exact (ih.call m' f args hf hargs).halts

lemma call_succ (hL : D.Liberal) (m : Machine σ) (f : Value) (args : List Value)
    (hf : D.Fair m.heap f) (hargs : D.FairAll m.heap args) :
    D.Safe m (Run.call S (fuel + 1) f args) D.Fair := by
  cases hf with
  | @function code frame hcode =>
    exact halts_const_iff.1 (halts_callFunction hD hL.stray hcode hargs
      fun m' inner _ _ hinner => (ih.block m' inner code.body hinner).halts)
  | builtin b => exact hD.safe_callBuiltin S hargs (ih.invoke m) b
  | _ => exact safe_throw _

lemma invoke_succ (hL : D.Liberal) (m : Machine σ) (name : String) (args : List Value)
    (hargs : D.FairAll m.heap args) : D.Safe m (Run.invoke S (fuel + 1) name args) D.Fair := by
  refine halts_const_iff.1 (halts_invoke hD name hargs (fun m' code frame _ hcode hargs' => ?_)
    fun m' run inRun _ hadmits hargs' => ?_)
  · exact (ih.call m' _ args (.function hcode) hargs').halts
  · have hrun := hD.permits_of_admits _ _ _ hadmits
    exact halts_perform hD S (hrun.action hD hargs') (ih.supports hL m' _)

lemma block_succ (hL : D.Liberal) (m : Machine σ) (frame : FrameId) (stmts : List Stmt)
    (h : D.owns m.heap frame) :
    D.Safe m (Run.execBlock S (fuel + 1) frame stmts) D.FairFlow := by
  have hcode : ∀ code, Stmt.function code ∈ stmts → D.allowed m.heap code frame := fun code _ =>
    hL.allowed_of_sees _ code frame (hD.sees_of_owns _ _ h)
  exact halts_const_iff.1 (halts_block hD h hcode fun s _ m' hlead =>
    (ih.exec m' frame s (hlead.owns hD h)).halts)

/-- A block in a scope of its own. -/
lemma inner (body : List Stmt) (h : D.sees m.heap frame) :
    D.Safe m (do Run.execBlock S fuel (← Exec.newFrame frame) body) D.FairFlow :=
  halts_const_iff.1 (halts_inner hD h fun m' f _ hf => (ih.block m' f body hf).halts)

/-- A block in a scope of its own with one variable. -/
lemma round (var : String) (body : List Stmt) {v : Value} (h : D.sees m.heap frame)
    (hv : D.Fair m.heap v) :
    D.Safe m
      (do let f ← Exec.newFrame frame
          Exec.declare f var v false
          Run.execBlock S fuel f body) D.FairFlow :=
  halts_const_iff.1 (halts_round hD var h hv fun m' f _ hf => (ih.block m' f body hf).halts)

/-- A loop over a range of numbers, which the fuel may cut short. -/
lemma forRange_succ (hL : D.Liberal) (m : Machine σ) (frame : FrameId) (var : String)
    (start stop : Expr) (body : List Stmt) (h : D.sees m.heap frame) :
    D.Safe m (Run.exec S (fuel + 1) frame (.forRange var start stop body)) D.FairFlow := by
  refine (ih.eval m frame start h).bind fun m₁ v₁ h₁ _ => ?_
  refine (safe_ofExcept (Q := fun _ _ => True) fun _ _ => trivial).bind
    fun m₂ low h₂ _ => ?_
  have hsees := (h₁.trans h₂).sees hD h
  refine (ih.eval m₂ frame stop hsees).bind fun m₃ v₂ h₃ _ => ?_
  refine (safe_ofExcept (Q := fun _ _ => True) fun _ _ => trivial).bind
    fun m₄ high h₄ _ => ?_
  refine safe_forNumbers hL.cut (leaves_fairFlow D) fuel low fun x m' h' => ?_
  exact ih.round hD var body (((h₃.trans h₄).trans h').sees hD hsees) (.number x)

/-- A loop over a condition, which the fuel may cut short. -/
lemma while_succ (hL : D.Liberal) (m : Machine σ) (frame : FrameId) (condition : Expr)
    (body : List Stmt) (h : D.sees m.heap frame) :
    D.Safe m (Run.exec S (fuel + 1) frame (.while condition body)) D.FairFlow := by
  refine safe_whileTrue hL.cut (leaves_fairFlow D) fuel (fun m' h' => ?_) fun m' h' => ?_
  · exact (ih.eval m' frame condition (h'.sees hD h)).bind fun _ _ _ _ => safe_pure trivial
  · exact ih.inner hD body (h'.sees hD h)

/-- All other statements. -/
lemma exec_of_not_repeats (m : Machine σ) (frame : FrameId) (s : Stmt)
    (hs : s.repeats = false) (h : D.sees m.heap frame)
    (howns : s.nests = false → D.owns m.heap frame) :
    D.Safe m (Run.exec S (fuel + 1) frame s) D.FairFlow := by
  refine halts_const_iff.1 (halts_exec hD h howns hs (fun e _ m' hlead => ?_)
    fun body _ m' f _ hf => ?_)
  · exact (ih.eval m' frame e (hlead.sees hD h)).halts
  · exact (ih.block m' f body hf).halts

/-- The statements that open scopes of their own. -/
lemma nested_succ (hL : D.Liberal) (m : Machine σ) (frame : FrameId) (s : Stmt)
    (hs : s.nests = true) (h : D.sees m.heap frame) :
    D.Safe m (Run.exec S (fuel + 1) frame s) D.FairFlow := by
  cases s with
  | forRange var start stop body => exact ih.forRange_succ hD hL m frame var start stop body h
  | «while» condition body => exact ih.while_succ hD hL m frame condition body h
  | _ => exact ih.exec_of_not_repeats hD m frame _ rfl h fun hn => by simp [hs] at hn

lemma exec_succ (hL : D.Liberal) (m : Machine σ) (frame : FrameId) (s : Stmt)
    (h : D.owns m.heap frame) : D.Safe m (Run.exec S (fuel + 1) frame s) D.FairFlow := by
  have hsees := hD.sees_of_owns _ _ h
  cases s with
  | forRange var start stop body => exact ih.nested_succ hD hL m frame _ rfl hsees
  | «while» condition body => exact ih.nested_succ hD hL m frame _ rfl hsees
  | _ => exact ih.exec_of_not_repeats hD m frame _ rfl hsees fun _ => h

end EvaluatorSafe

/-- **The evaluator observes every lawful and liberal discipline**, whatever its fuel. -/
theorem evaluatorSafe (hD : D.Lawful) (hL : D.Liberal) (S : Backend σ) :
    ∀ fuel, EvaluatorSafe D S fuel := by
  intro fuel
  induction fuel with
  | zero => exact .zero hL S
  | succ fuel ih =>
    exact ⟨ih.eval_succ hD hL, ih.call_succ hD hL, ih.invoke_succ hD hL, ih.block_succ hD hL,
      ih.nested_succ hD hL, ih.exec_succ hD hL⟩

/-! ### Disciplines of states -/

namespace Discipline

/-- A discipline that says what holds of states and between them, and nothing of closures and
frames. -/
def ofStates (Inv : Machine σ → Prop) (Step : Machine σ → Machine σ → Prop)
    (refl : ∀ m, Step m m) (trans : ∀ m₁ m₂ m₃, Step m₁ m₂ → Step m₂ m₃ → Step m₁ m₃) :
    Discipline σ where
  Inv := Inv
  Step := Step
  refl := refl
  trans := trans
  allowed _ _ _ := True
  later _ P := ∀ code frame, P code frame
  admits _ _ _ := True
  sees _ _ := True
  owns _ _ := True
  ending := False

/-- The single steps of a run observe a discipline of states, to which frames and counts do not
matter. -/
structure StateLaws (D : Discipline σ) : Prop where
  inward : ∀ m m', D.Inv m → m'.tasks = m.tasks → m'.context = m.context →
    m'.terminal = m.terminal → m'.journal = m.journal → D.Leads m m'
  register : ∀ m name description handler, D.Inv m → handler.fromRun = true →
    D.Leads m { m with tasks := Keyed.put name ⟨description, handler⟩ m.tasks }
  line : ∀ m l, D.Inv m → D.Leads m (m.mapOutput (·.push l) (·.push (.line m.context l)))
  cleared : ∀ m, D.Inv m → D.Leads m (m.mapOutput (fun _ => {}) (·.push (.cleared m.context)))
  slept : ∀ m millis, D.Inv m → D.Leads m (m.mapOutput id (·.push (.slept millis)))
  changed : ∀ m s c reply, D.Inv m →
    D.Leads m { m with store := s, journal := m.journal.push (.changed c reply) }
  read : ∀ m s path reply, D.Inv m →
    D.Leads m { m with store := s, journal := m.journal.push (.read path reply) }

variable {Inv : Machine σ → Prop} {Step : Machine σ → Machine σ → Prop} {refl : ∀ m, Step m m}
  {trans : ∀ m₁ m₂ m₃, Step m₁ m₂ → Step m₂ m₃ → Step m₁ m₃}
  (h : (ofStates Inv Step refl trans).StateLaws)

include h

lemma lawful_ofStates : (ofStates Inv Step refl trans).Lawful where
  later_allowed _ _ _ := trivial
  later_mono _ _ _ _ hP := hP
  of_later _ _ code frame hP _ := hP code frame
  sees_mono _ _ _ _ _ := trivial
  owns_mono _ _ _ _ _ := trivial
  sees_of_owns _ _ _ := trivial
  sees_of_allowed _ _ _ _ := trivial
  heap _ _ _ _ p _ := Value.allClosures_of_forall (fun _ _ => trivial) p.2.value
  tasks _ _ _ _ := trivial
  permits_of_admits _ _ handler _ _ hP := Handler.allClosures_of_forall hP handler
  admits_script _ _ _ _ _ := trivial
  newFrame m _ hm _ := ⟨h.inward m _ hm rfl rfl rfl rfl, trivial⟩
  declare m _ _ _ _ hm _ _ := h.inward m _ hm rfl rfl rfl rfl
  assign m _ _ _ _ hm _ _ _ := h.inward m _ hm rfl rfl rfl rfl
  register m name description handler hm hrun _ := h.register m name description handler hm hrun
  line := h.line
  cleared := h.cleared
  slept := h.slept
  changed := h.changed
  read := h.read
  deeper m _ hm := (h.inward m m.deeper hm rfl rfl rfl rfl).after
  shallower m m' _ hm hlead :=
    have hdeeper := h.inward m m.deeper hm rfl rfl rfl rfl
    (hdeeper.trans hlead).trans (h.inward m' m'.shallower hlead.after rfl rfl rfl rfl)

lemma liberal_ofStates : (ofStates Inv Step refl trans).Liberal where
  allowed_of_sees _ _ _ _ := trivial
  admits_host _ _ _ _ := trivial
  stray m hm := h.inward m _ hm rfl rfl rfl rfl
  cut hend := hend

/-- A program begins with a global frame of its own. -/
lemma root_ofStates (m : Machine σ) (hm : (ofStates Inv Step refl trans).Inv m) :
    (ofStates Inv Step refl trans).Leads m (m.mapHeap fun h => h.root.2) ∧
      (ofStates Inv Step refl trans).owns m.heap.root.2 m.heap.size :=
  ⟨h.inward m _ hm rfl rfl rfl rfl, trivial⟩

end Discipline

/-! ### Programs -/

section

open Discipline

variable {m : Machine σ} (hD : D.Lawful) (hL : D.Liberal) (S : Backend σ) (fuel : Nat)

include hD hL

/-- A program, when the discipline allows for one more global frame. -/
lemma safe_runProgram {program : Script.Program}
    (hroot : D.Inv m → D.Leads m (m.mapHeap fun h => h.root.2) ∧ D.owns m.heap.root.2 m.heap.size) :
    D.Safe m (runProgram S fuel program) D.FairFlow := by
  intro hm
  obtain ⟨hlead, howns⟩ := hroot hm
  obtain ⟨h1, h2, h3⟩ := (evaluatorSafe hD hL S fuel).block _ _ program howns hlead.after
  exact ⟨hlead.trans h1, h2, h3⟩

/-- A script, with the line that tells of its failure. -/
lemma safe_runScript {script : Script.Compiled}
    (hroot : D.Inv m → D.Leads m (m.mapHeap fun h => h.root.2) ∧ D.owns m.heap.root.2 m.heap.size) :
    D.Safe m (runScript S fuel script) fun _ _ => True := by
  refine (safe_runProgram hD hL S fuel hroot).attempt.bind fun m' r _ _ => ?_
  cases r with
  | ok flow => exact safe_pure trivial
  | error e =>
    dsimp only
    split
    · exact (hD.safe_emit _ _).bind fun _ _ _ _ => safe_fail e
    · exact safe_fail e

end

end ScriptedNotes.Run
