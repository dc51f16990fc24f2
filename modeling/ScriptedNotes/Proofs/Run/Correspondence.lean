import Mathlib.Tactic.Common
import ScriptedNotes.Proofs.Run.Renaming

/-!
Two runs of one script, side by side. A correspondence relates computations of which the second does
what the first does on frames with other numbers, and says in which way their values belong
together. It is lawful when it relates the single steps of a run and is kept by the ways in which
steps are put together; then it relates the evaluator to itself, whatever its fuel, for the same
expressions and statements in frames that belong together (`evaluatorCorresponds`).

What the related computations have in common is left open, so that a property of single runs that
looks at neither frames nor values is a correspondence as well, of a run with itself.
-/

namespace ScriptedNotes.Run

open Script (Function Stmt Expr Branch TemplatePart Compiled)
open Exec

/-! ### What a run looks up -/

namespace Exec

variable {σ : Type}

/-- The value of a variable, if it is known. -/
def valueOf? (frame : FrameId) (name : String) : Exec σ (Option Value) := do
  return (← getHeap).lookup? frame name

/-- The task that has a name at this moment. -/
def taskOf? (name : String) : Exec σ (Option Task) := do
  return Keyed.get? name (← getTasks)

/-- The names and descriptions of all tasks at this moment. -/
def listTasks : Exec σ (List (String × String)) := do
  return (← getTasks).list

lemma resolve_eq (frame : FrameId) (name : String) :
    (resolve frame name : Exec σ Value) =
      (valueOf? frame name >>= fun v? =>
        match v?, Builtin.ofName? name with
        | some v, _ => pure v
        | none, some b => pure (.builtin b)
        | none, none => throw (name ++ " is not defined")) :=
  rfl

lemma resolveCallable_eq (frame : FrameId) (name : String) :
    (resolveCallable frame name : Exec σ Value) =
      (valueOf? frame name >>= fun v? =>
        match v?.filter Value.isCallable, Builtin.ofName? name with
        | some v, _ => pure v
        | none, some b => pure (.builtin b)
        | none, none =>
          throw (name ++ if v?.isSome then " is not a function" else " is not defined")) :=
  rfl

lemma assignPath_eq (frame : FrameId) (name : String) {path : List Key} (v : Value)
    (h : path.isEmpty = false) :
    (assignPath frame name path v : Exec σ Unit) =
      (valueOf? frame name >>= fun v? =>
        match v? with
        | none => throw (name ++ " is not defined")
        | some container => ofExcept (setPath container path v) >>= assign frame name) := by
  unfold assignPath
  rw [h]
  rfl

lemma invoke_eq (S : Backend σ) (fuel : Nat) (name : String) (args : List Value) :
    invoke S (fuel + 1) name args =
      (taskOf? name >>= fun task? =>
        match task? with
        | some ⟨_, .script code frame⟩ => call S fuel (.function code frame) args
        | some ⟨_, .host run _⟩ => perform S (call S fuel) (invoke S fuel) (run args)
        | none => fail (.taskNotFound name)) := by
  simp only [invoke]
  rfl

end Exec

/-! ### Correspondences -/

lemma joined_rename (ρ : FrameId → FrameId) {text : Value → String}
    (h : ∀ v : Value, text (v.rename ρ) = text v) (args : List Value) :
    Exec.joined text (args.map (Value.rename ρ)) = Exec.joined text args := by
  unfold Exec.joined
  rw [List.map_map]
  exact congrArg (" ".intercalate ·) (List.map_congr_left fun v _ => h v)

lemma optionalText_rename (ρ : FrameId → FrameId) (arg? : Option Value) :
    Exec.optionalText (arg?.map (Value.rename ρ)) = Exec.optionalText arg? := by
  cases arg? with
  | none => rfl
  | some v =>
    have hdisplay := Value.display_rename ρ v
    cases v <;> first | rfl | exact hdisplay


/-- What is said of two computations. -/
structure Correspondence (σ : Type) where
  /-- The frame of the second run that belongs to a frame of the first. -/
  rename : FrameId → FrameId
  /-- The computations are related, and so are their values, by the function. -/
  rel : ∀ {α β : Type}, (α → β) → Exec σ α → Exec σ β → Prop

namespace Correspondence

variable {σ : Type}

/-- The value of the second run that belongs to a value of the first. -/
abbrev value (C : Correspondence σ) : Value → Value :=
  Value.rename C.rename

abbrev flow (C : Correspondence σ) : Flow → Flow :=
  Flow.rename C.rename

/-- The single steps of a run that have nothing to do with procedures of the host are related, and
so is what is put together from related computations. -/
structure Steps (C : Correspondence σ) (S : Backend σ) : Prop where
  pure : ∀ {α β : Type} (f : α → β) (a : α), C.rel f (pure a) (pure (f a))
  bind : ∀ {α β γ δ : Type} {f : α → β} {g : γ → δ} {x : Exec σ α} {y : Exec σ β}
    {k : α → Exec σ γ} {l : β → Exec σ δ}, C.rel f x y → (∀ a, C.rel g (k a) (l (f a))) →
    C.rel g (x >>= k) (y >>= l)
  thrown : ∀ {α β : Type} (f : α → β) (message : String), C.rel f (throw message) (throw message)
  unfinished : ∀ {α β : Type} (f : α → β), C.rel f unfinished unfinished
  attempt : ∀ {α β : Type} {f : α → β} {x : Exec σ α} {y : Exec σ β}, C.rel f x y →
    C.rel (Except.map f) (attempt x) (attempt y)
  nested : ∀ {α β : Type} {f : α → β} {x : Exec σ α} {y : Exec σ β}, C.rel f x y →
    C.rel f (nested x) (nested y)
  endCall : ∀ flow, C.rel C.value (endCall flow) (endCall (C.flow flow))
  lookup : ∀ frame name,
    C.rel (Option.map C.value) (valueOf? frame name) (valueOf? (C.rename frame) name)
  newFrame : ∀ frame, C.rel C.rename (newFrame frame) (newFrame (C.rename frame))
  declare : ∀ frame name v constant,
    C.rel id (declare frame name v constant) (declare (C.rename frame) name (C.value v) constant)
  assign : ∀ frame name v, C.rel id (assign frame name v) (assign (C.rename frame) name (C.value v))
  register : ∀ name description code frame,
    C.rel id (register name ⟨description, .script code frame⟩)
      (register name ⟨description, .script code (C.rename frame)⟩)
  emit : ∀ kind text, C.rel id (emit kind text) (emit kind text)
  clear : C.rel id clear clear
  sleep : ∀ millis, C.rel id (sleep millis) (sleep millis)
  change : ∀ c, C.rel id (change S c) (change S c)
  read : ∀ path, C.rel id (read S path) (read S path)
  listTasks : C.rel id listTasks listTasks

/-- So are the single steps of the procedures of the host. -/
structure Hosting (C : Correspondence σ) (S : Backend σ) : Prop extends Steps C S where
  failed : ∀ {α β : Type} (f : α → β) (e : Error), C.rel f (fail e) (fail e)
  /-- A procedure of the host that is registered in the run. -/
  registerHost : ∀ (name description : String) (run run' : List Value → Action),
    (∀ args, (run args).Renamed C.rename (run' (args.map C.value))) →
    C.rel id (Exec.register name ⟨description, .host run true⟩)
      (Exec.register name ⟨description, .host run' true⟩)

/-- All single steps of a run are related, and so is what is put together from related
computations. -/
structure Lawful (C : Correspondence σ) (S : Backend σ) : Prop extends Hosting C S where
  /-- What is done with a task: in the second run a function has another frame, and a procedure of
  the host does the same with others. -/
  task : ∀ {α β : Type} {f : α → β} {k : Option Task → Exec σ α} {l : Option Task → Exec σ β}
    (name : String), C.rel f (k none) (l none) →
    (∀ description handler handler', handler.Renamed C.rename handler' →
      C.rel f (k (some ⟨description, handler⟩)) (l (some ⟨description, handler'⟩))) →
    C.rel f (taskOf? name >>= k) (taskOf? name >>= l)

namespace Steps

variable {C : Correspondence σ} {S : Backend σ} {α β γ δ : Type} (hC : C.Steps S)

include hC

/-! ### Values, lists and loops -/

lemma value {f : α → β} {a : α} {b : β} (h : b = f a) : C.rel f (Pure.pure a) (Pure.pure b) := by
  rw [h]
  exact hC.pure f a

lemma ofExcept {f : α → β} {r : Except String α} {r' : Except String β} (h : r' = r.map f) :
    C.rel f (ofExcept r) (ofExcept r') := by
  rw [h]
  cases r with
  | ok a => exact hC.pure f a
  | error message => exact hC.thrown f message

/-- A value that has to be a number. -/
lemma number (v : Value) (what : String) :
    C.rel id (Exec.ofExcept (expectNumber v what))
      (Exec.ofExcept (expectNumber (C.value v) what)) := by
  rw [expectNumber_rename]
  cases expectNumber v what with
  | ok x => exact hC.pure id x
  | error message => exact hC.thrown id message

lemma each {g : β → γ} {f : α → Exec σ β} {f' : α → Exec σ γ} (l : List α)
    (h : ∀ a ∈ l, C.rel g (f a) (f' a)) : C.rel (List.map g) (each f l) (each f' l) := by
  induction l with
  | nil => exact hC.pure (List.map g) []
  | cons a rest ih =>
    have hrest := ih fun b hb => h b (List.mem_cons_of_mem a hb)
    refine hC.bind (h a List.mem_cons_self) fun b => ?_
    exact hC.bind hrest fun bs => hC.pure (List.map g) (b :: bs)

lemma first? {test test' : α → Exec σ Bool} (l : List α)
    (h : ∀ a, C.rel id (test a) (test' a)) : C.rel id (first? test l) (first? test' l) := by
  induction l with
  | nil => exact hC.pure id none
  | cons a rest ih =>
    refine hC.bind (h a) fun b => ?_
    cases b with
    | true => exact hC.pure id (some a)
    | false => exact ih

lemma sequence {f f' : α → Exec σ Flow} (l : List α) (h : ∀ a, C.rel C.flow (f a) (f' a)) :
    C.rel C.flow (sequence f l) (sequence f' l) := by
  induction l with
  | nil => exact hC.pure C.flow .normal
  | cons a rest ih =>
    refine hC.bind (h a) fun flow => ?_
    cases flow with
    | normal => exact ih
    | «return» v => exact hC.pure C.flow (.return v)
    | «break» => exact hC.pure C.flow .break
    | «continue» => exact hC.pure C.flow .continue

/-- A round of a loop and what the loop makes of its end. -/
lemma round {x y k l : Exec σ Flow} (hbody : C.rel C.flow x y) (hnext : C.rel C.flow k l) :
    C.rel C.flow
      (do match (← x).leavesLoop? with
          | some flow => return flow
          | none => k)
      (do match (← y).leavesLoop? with
          | some flow => return flow
          | none => l) := by
  refine hC.bind hbody fun flow => ?_
  rw [Flow.leavesLoop?_rename]
  cases flow.leavesLoop? with
  | none => exact hnext
  | some left => exact hC.pure C.flow left

lemma forItems {g : α → β} {body : α → Exec σ Flow} {body' : β → Exec σ Flow} (l : List α)
    (h : ∀ a, C.rel C.flow (body a) (body' (g a))) :
    C.rel C.flow (forItems body l) (forItems body' (l.map g)) := by
  induction l with
  | nil => exact hC.pure C.flow .normal
  | cons a rest ih => exact hC.round (h a) ih

lemma forEqualItems {body body' : α → Exec σ Flow} (l : List α)
    (h : ∀ a, C.rel C.flow (body a) (body' a)) :
    C.rel C.flow (Exec.forItems body l) (Exec.forItems body' l) := by
  have hitems := hC.forItems (g := id) l h
  rw [List.map_id] at hitems
  exact hitems

lemma forNumbers {body body' : Float → Exec σ Flow} {stop : Float}
    (h : ∀ x, C.rel C.flow (body x) (body' x)) :
    ∀ fuel x, C.rel C.flow (forNumbers body stop fuel x) (forNumbers body' stop fuel x) := by
  intro fuel
  induction fuel with
  | zero =>
    intro x
    exact hC.unfinished C.flow
  | succ fuel ih =>
    intro x
    unfold Exec.forNumbers
    by_cases hx : x ≤ stop
    · rw [if_pos hx, if_pos hx]
      exact hC.round (h x) (ih (x + 1))
    · rw [if_neg hx, if_neg hx]
      exact hC.pure C.flow .normal

lemma whileTrue {condition condition' : Exec σ Bool} {body body' : Exec σ Flow}
    (hcondition : C.rel id condition condition') (hbody : C.rel C.flow body body') :
    ∀ fuel, C.rel C.flow (whileTrue condition body fuel) (whileTrue condition' body' fuel) := by
  intro fuel
  induction fuel with
  | zero => exact hC.unfinished C.flow
  | succ fuel ih =>
    refine hC.bind hcondition fun b => ?_
    cases b with
    | true => exact hC.round hbody ih
    | false => exact hC.pure C.flow .normal

/-! ### Names -/

lemma resolve (frame : FrameId) (name : String) :
    C.rel C.value (resolve frame name) (resolve (C.rename frame) name) := by
  rw [resolve_eq, resolve_eq]
  refine hC.bind (hC.lookup frame name) fun v? => ?_
  cases v? with
  | some v => exact hC.pure C.value v
  | none =>
    cases Builtin.ofName? name with
    | some b => exact hC.pure C.value (.builtin b)
    | none => exact hC.thrown C.value _

lemma resolveCallable (frame : FrameId) (name : String) :
    C.rel C.value (resolveCallable frame name) (resolveCallable (C.rename frame) name) := by
  rw [resolveCallable_eq, resolveCallable_eq]
  refine hC.bind (hC.lookup frame name) fun v? => ?_
  have hfilter : (v?.map C.value).filter Value.isCallable =
      (v?.filter Value.isCallable).map C.value := by
    cases v? with
    | none => rfl
    | some v =>
      rw [Option.map_some, Option.filter_some, Option.filter_some, Value.isCallable_rename]
      split <;> rfl
  rw [hfilter, Option.isSome_map]
  cases v?.filter Value.isCallable with
  | some v => exact hC.pure C.value v
  | none =>
    cases Builtin.ofName? name with
    | some b => exact hC.pure C.value (.builtin b)
    | none => exact hC.thrown C.value _

lemma targetOf {f f' : Expr → Exec σ Value} (h : ∀ e, C.rel C.value (f e) (f' e)) :
    ∀ (target : Expr) (path : List Key),
      C.rel (Prod.map id (List.map (Key.rename C.rename))) (targetOf f target path)
        (targetOf f' target (path.map (Key.rename C.rename)))
  | .ident _, _ => hC.pure _ _
  | .member object property, path => targetOf h object (.field property :: path)
  | .index object index, path =>
    hC.bind (h index) fun v => targetOf h object (.index v :: path)
  | .number _, _ | .str _, _ | .template _, _ | .bool _, _ | .nil, _ | .array _, _ | .unary _ _, _
  | .binary _ _ _, _ | .call _ _, _ | .lambda _, _ => hC.thrown _ _

lemma assignPath (frame : FrameId) (name : String) (path : List Key) (v : Value) :
    C.rel id (assignPath frame name path v)
      (assignPath (C.rename frame) name (path.map (Key.rename C.rename)) (C.value v)) := by
  cases path with
  | nil => exact hC.assign frame name v
  | cons key rest =>
    rw [assignPath_eq frame name v rfl, assignPath_eq (C.rename frame) name (C.value v) rfl]
    refine hC.bind (hC.lookup frame name) fun v? => ?_
    cases v? with
    | none => exact hC.thrown id _
    | some container =>
      refine hC.bind (hC.ofExcept (setPath_rename C.rename v (key :: rest) container)) fun c => ?_
      exact hC.assign frame name c

lemma hoist (frame : FrameId) (stmts : List Stmt) :
    C.rel id (hoist frame stmts) (hoist (C.rename frame) stmts) := by
  induction stmts with
  | nil => exact hC.pure id ()
  | cons s rest ih =>
    cases s with
    | function code =>
      simp only [Exec.hoist]
      cases code.name with
      | none => exact ih
      | some name => exact hC.bind (hC.declare frame name (.function code frame) false) fun _ => ih
    | _ => exact ih

lemma bindParams (frame : FrameId) : ∀ (names : List String) (args : List Value),
    C.rel id (bindParams frame names args)
      (bindParams (C.rename frame) names (args.map C.value)) := by
  intro names
  induction names with
  | nil =>
    intro args
    exact hC.pure id ()
  | cons name names ih =>
    intro args
    cases args with
    | nil => exact hC.bind (hC.declare frame name .nil false) fun _ => ih []
    | cons v rest => exact hC.bind (hC.declare frame name v false) fun _ => ih rest

/-! ### Procedures -/

/-- What a procedure of the host asks for. -/
lemma answer {call call' : Value → List Value → Exec σ Value}
    {invoke invoke' : String → List Value → Exec σ Value}
    (hcall : ∀ f args, C.rel C.value (call f args) (call' (C.value f) (args.map C.value)))
    (hinvoke : ∀ name args, C.rel C.value (invoke name args) (invoke' name (args.map C.value)))
    (request : Request) : C.rel (request.renameReply C.rename)
    (answer S call invoke request) (answer S call' invoke' (request.rename C.rename)) := by
  have hattempt : ∀ {α : Type} {x : Exec σ α}, C.rel id x x →
      C.rel id (Exec.attempt x) (Exec.attempt x) := by
    intro α x hx
    have hmap : (Except.map id : Except Error α → Except Error α) = id :=
      funext fun reply => by cases reply <;> rfl
    have hattempted := hC.attempt hx
    rwa [hmap] at hattempted
  cases request with
  | emit kind text => exact hC.emit kind text
  | clear => exact hC.clear
  | sleep millis => exact hC.sleep millis
  | change c => exact hattempt (hC.change c)
  | read path => exact hattempt (hC.read path)
  | call f args => exact hC.attempt (hcall f args)
  | invoke name args => exact hC.attempt (hinvoke name args)
  | tasks => exact hC.listTasks

lemma stringArg (function : String) (arg? : Option Value) :
    C.rel id (stringArg function arg?) (stringArg function (arg?.map C.value)) := by
  cases arg? with
  | none => exact hC.thrown id _
  | some v => cases v <;> first | exact hC.pure id _ | exact hC.thrown id _

/-- A function that every script knows. -/
theorem callBuiltin {invoke invoke' : String → List Value → Exec σ Value}
    (hinvoke : ∀ name args,
      C.rel C.value (invoke name args) (invoke' name (args.map C.value))) (b : Builtin)
    (args : List Value) :
    C.rel C.value (callBuiltin S invoke b args) (callBuiltin S invoke' b (args.map C.value)) := by
  have hpath : C.rel id (Exec.stringArg b.name args[0]?)
      (Exec.stringArg b.name (args.map C.value)[0]?) := by
    rw [List.getElem?_map]
    exact hC.stringArg b.name args[0]?
  have hcontent : optionalText (args.map C.value)[1]? = optionalText args[1]? := by
    rw [List.getElem?_map]
    exact optionalText_rename C.rename args[1]?
  have hchange : ∀ c : String → Change,
      C.rel C.value (do return (← Exec.change S (c (← Exec.stringArg b.name args[0]?))).toValue)
        (do
          let path ← Exec.stringArg b.name (args.map C.value)[0]?
          return (← Exec.change S (c path)).toValue) := by
    intro c
    refine hC.bind hpath fun path => hC.bind (hC.change (c path)) fun o => ?_
    exact hC.value (Value.rename_toValue C.rename o).symm
  have htrue : ∀ {x y : Exec σ Unit}, C.rel id x y →
      C.rel C.value (do x; return .bool true) (do y; return .bool true) := by
    intro x y h
    exact hC.bind h fun _ => hC.pure C.value (.bool true)
  unfold Exec.callBuiltin
  rw [hcontent]
  cases b with
  | createFile => exact hchange fun path => .createFile path (optionalText args[1]?)
  | deleteFile => exact hchange .deleteFile
  | readFile =>
    refine hC.bind hpath fun path => hC.bind (hC.read path) fun text => ?_
    exact hC.pure C.value (.str text)
  | writeFile => exact hchange fun path => .writeFile path (optionalText args[1]?)
  | createDirectory => exact hchange .createDirectory
  | deleteDirectory => exact hchange .deleteDirectory
  | print =>
    rw [joined_rename C.rename (Value.printText_rename C.rename)]
    exact htrue (hC.emit _ _)
  | printError =>
    rw [joined_rename C.rename (Value.display_rename C.rename)]
    exact htrue (hC.emit _ _)
  | printSuccess =>
    rw [joined_rename C.rename (Value.display_rename C.rename)]
    exact htrue (hC.emit _ _)
  | clear => exact htrue hC.clear
  | sleep =>
    cases args with
    | nil => exact hC.bind (hC.sleep 0) fun _ => hC.pure C.value .nil
    | cons v rest =>
      refine hC.bind (hC.number v "sleep duration") fun x => ?_
      exact hC.bind (hC.sleep x) fun _ => hC.pure C.value .nil
  | runTask =>
    cases args with
    | nil => exact hC.thrown C.value _
    | cons v rest =>
      cases v with
      | str task => exact hinvoke task rest
      | _ => exact hC.thrown C.value _
  | registerTask =>
    refine hC.bind hpath fun name => ?_
    rw [List.getElem?_map]
    cases args[2]? with
    | none => exact hC.thrown C.value _
    | some v =>
      cases v with
      | function code frame => exact htrue (hC.register name _ code frame)
      | _ => exact hC.thrown C.value _

end Steps

/-- A procedure of the host and one that does the same on frames with other numbers. -/
theorem Hosting.perform {C : Correspondence σ} {S : Backend σ} (hC : C.Hosting S)
    {call call' : Value → List Value → Exec σ Value}
    {invoke invoke' : String → List Value → Exec σ Value}
    (hcall : ∀ f args, C.rel C.value (call f args) (call' (C.value f) (args.map C.value)))
    (hinvoke : ∀ name args,
      C.rel C.value (invoke name args) (invoke' name (args.map C.value))) {a b : Action}
    (h : a.Renamed C.rename b) :
    C.rel C.value (perform S call invoke a) (perform S call' invoke' b) := by
  induction h with
  | done v => exact hC.pure C.value v
  | fail e => exact hC.failed C.value e
  | @ask request next next' _ ih =>
    exact hC.bind (hC.answer hcall hinvoke request) fun reply => ih reply
  | @register name description run run' _ _ hrun _ _ ih =>
    exact hC.bind (hC.registerHost name description run run' hrun) fun _ => ih

/-! ### The evaluator -/

/-- What is shown of the evaluator at one fuel. -/
structure EvaluatorCorresponds (C : Correspondence σ) (S : Backend σ) (fuel : Nat) : Prop where
  eval : ∀ frame e, C.rel C.value (eval S fuel frame e) (eval S fuel (C.rename frame) e)
  call : ∀ f args, C.rel C.value (call S fuel f args) (call S fuel (C.value f) (args.map C.value))
  invoke : ∀ name args,
    C.rel C.value (invoke S fuel name args) (invoke S fuel name (args.map C.value))
  block : ∀ frame stmts,
    C.rel C.flow (execBlock S fuel frame stmts) (execBlock S fuel (C.rename frame) stmts)
  exec : ∀ frame s, C.rel C.flow (exec S fuel frame s) (exec S fuel (C.rename frame) s)

namespace EvaluatorCorresponds

variable {C : Correspondence σ} {S : Backend σ} {fuel : Nat} (hC : C.Steps S)

include hC

lemma zero : EvaluatorCorresponds C S 0 where
  eval _ _ := hC.unfinished C.value
  call _ _ := hC.unfinished C.value
  invoke _ _ := hC.unfinished C.value
  block _ _ := hC.unfinished C.flow
  exec _ _ := hC.unfinished C.flow

variable (ih : EvaluatorCorresponds C S fuel)

include ih

/-- Whether an expression holds as a condition. -/
lemma condition (frame : FrameId) (e : Expr) :
    C.rel id (do return (← Run.eval S fuel frame e).isTruthy)
      (do return (← Run.eval S fuel (C.rename frame) e).isTruthy) :=
  hC.bind (ih.eval frame e) fun v => hC.value (Value.isTruthy_rename C.rename v)

lemma values (frame : FrameId) (es : List Expr) :
    C.rel (List.map C.value) (each (Run.eval S fuel frame) es)
      (each (Run.eval S fuel (C.rename frame)) es) :=
  hC.each es fun e _ => ih.eval frame e

/-- Expressions, one case for each form. -/
theorem eval_succ (frame : FrameId) (e : Expr) :
    C.rel C.value (Run.eval S (fuel + 1) frame e) (Run.eval S (fuel + 1) (C.rename frame) e) := by
  cases e with
  | number x => exact hC.pure C.value (.number x)
  | str s => exact hC.pure C.value (.str s)
  | bool b => exact hC.pure C.value (.bool b)
  | nil => exact hC.pure C.value .nil
  | template parts =>
    simp only [Run.eval]
    refine hC.bind (f := List.map id) (hC.each parts fun part _ => ?_) fun texts => ?_
    · cases part with
      | text s => exact hC.pure id s
      | expr e =>
        exact hC.bind (ih.eval frame e) fun v => hC.value (Value.display_rename C.rename v)
    · rw [List.map_id]
      exact hC.pure C.value (.str (String.join texts))
  | array items =>
    simp only [Run.eval]
    refine hC.bind (ih.values hC frame items) fun vs => ?_
    exact hC.value (Value.rename_array C.rename vs).symm
  | ident name => exact hC.resolve frame name
  | unary op operand =>
    cases op with
    | not =>
      simp only [Run.eval]
      refine hC.bind (ih.eval frame operand) fun v => ?_
      rw [Value.isTruthy_rename]
      exact hC.pure C.value (.bool !v.isTruthy)
    | neg =>
      simp only [Run.eval]
      refine hC.bind (ih.eval frame operand) fun v => ?_
      exact hC.bind (hC.number v _) fun x => hC.pure C.value (.number (-x))
  | binary op left right =>
    simp only [Run.eval]
    refine hC.bind (ih.eval frame left) fun l => ?_
    have happly : C.rel C.value
        (do ofExcept (applyBinary op l (← Run.eval S fuel frame right)))
        (do ofExcept (applyBinary op (C.value l) (← Run.eval S fuel (C.rename frame) right))) :=
      hC.bind (ih.eval frame right) fun r => hC.ofExcept (applyBinary_rename C.rename op l r)
    cases op with
    | and =>
      dsimp only
      rw [Value.isTruthy_rename]
      cases l.isTruthy with
      | true => exact ih.eval frame right
      | false => exact hC.pure C.value l
    | or =>
      dsimp only
      rw [Value.isTruthy_rename]
      cases l.isTruthy with
      | true => exact hC.pure C.value l
      | false => exact ih.eval frame right
    | _ => exact happly
  | call callee args =>
    have happly : ∀ f, C.rel C.value
        (do Run.call S fuel f (← each (Run.eval S fuel frame) args))
        (do Run.call S fuel (C.value f) (← each (Run.eval S fuel (C.rename frame)) args)) :=
      fun f => hC.bind (ih.values hC frame args) fun vs => ih.call f vs
    cases callee with
    | ident name => exact hC.bind (hC.resolveCallable frame name) happly
    | _ => exact hC.bind (ih.eval frame _) happly
  | member object property =>
    simp only [Run.eval]
    exact hC.bind (ih.eval frame object) fun o => hC.ofExcept (member_rename C.rename o property)
  | index object index =>
    simp only [Run.eval]
    refine hC.bind (ih.eval frame object) fun o => ?_
    exact hC.bind (ih.eval frame index) fun i => hC.ofExcept (elementOf_rename C.rename o i)
  | lambda code => exact hC.pure C.value (.function code frame)

lemma call_succ (f : Value) (args : List Value) :
    C.rel C.value (Run.call S (fuel + 1) f args)
      (Run.call S (fuel + 1) (C.value f) (args.map C.value)) := by
  cases f with
  | function code frame =>
    simp only [Run.call, Value.rename]
    refine hC.nested (hC.bind (hC.newFrame frame) fun inner => ?_)
    refine hC.bind (hC.bindParams inner code.params args) fun _ => ?_
    exact hC.bind (ih.block inner code.body) fun flow => hC.endCall flow
  | builtin b => exact hC.callBuiltin ih.invoke b args
  | _ => exact hC.thrown C.value _

lemma block_succ (frame : FrameId) (stmts : List Stmt) :
    C.rel C.flow (Run.execBlock S (fuel + 1) frame stmts)
      (Run.execBlock S (fuel + 1) (C.rename frame) stmts) := by
  simp only [Run.execBlock]
  exact hC.bind (hC.hoist frame stmts) fun _ => hC.sequence stmts fun s => ih.exec frame s

/-- A block in a scope of its own. -/
lemma inner (frame : FrameId) (body : List Stmt) :
    C.rel C.flow (do Run.execBlock S fuel (← newFrame frame) body)
      (do Run.execBlock S fuel (← newFrame (C.rename frame)) body) :=
  hC.bind (hC.newFrame frame) fun f => ih.block f body

/-- A block in a scope of its own with one variable. -/
lemma scope (frame : FrameId) (var : String) (body : List Stmt) (v : Value) :
    C.rel C.flow
      (do let f ← newFrame frame
          declare f var v false
          Run.execBlock S fuel f body)
      (do let f ← newFrame (C.rename frame)
          declare f var (C.value v) false
          Run.execBlock S fuel f body) := by
  refine hC.bind (hC.newFrame frame) fun f => ?_
  exact hC.bind (hC.declare f var v false) fun _ => ih.block f body

/-- Statements, one case for each form. -/
theorem exec_succ (frame : FrameId) (s : Stmt) :
    C.rel C.flow (Run.exec S (fuel + 1) frame s) (Run.exec S (fuel + 1) (C.rename frame) s) := by
  have hnormal : C.rel C.flow (pure .normal) (pure .normal) := hC.pure C.flow .normal
  cases s with
  | declare constant name value =>
    cases value with
    | none =>
      simp only [Run.exec]
      exact hC.bind (hC.declare frame name .nil constant) fun _ => hnormal
    | some e =>
      simp only [Run.exec]
      refine hC.bind (ih.eval frame e) fun v => ?_
      exact hC.bind (hC.declare frame name v constant) fun _ => hnormal
  | assign target value =>
    simp only [Run.exec]
    refine hC.bind (ih.eval frame value) fun v => ?_
    refine hC.bind (hC.targetOf (ih.eval frame) target []) fun place => ?_
    exact hC.bind (hC.assignPath frame place.1 place.2 v) fun _ => hnormal
  | expr e =>
    simp only [Run.exec]
    have hdiscard : C.rel id (discard <| Run.eval S fuel frame e)
        (discard <| Run.eval S fuel (C.rename frame) e) :=
      hC.bind (ih.eval frame e) fun _ => hC.pure id ()
    exact hC.bind hdiscard fun _ => hnormal
  | cond branches otherwise =>
    simp only [Run.exec]
    refine hC.bind (f := id) (hC.first? branches fun b => ?_) fun b? => ?_
    · obtain ⟨condition, body⟩ := b
      exact ih.condition hC frame condition
    · cases b? with
      | some b =>
        obtain ⟨condition, body⟩ := b
        exact ih.inner hC frame body
      | none =>
        cases otherwise with
        | none => exact hnormal
        | some body => exact ih.inner hC frame body
  | forRange var start stop body =>
    simp only [Run.exec]
    refine hC.bind (ih.eval frame start) fun v => ?_
    refine hC.bind (hC.number v _) fun low => ?_
    refine hC.bind (ih.eval frame stop) fun w => ?_
    refine hC.bind (hC.number w _) fun high => ?_
    exact hC.forNumbers (fun x => ih.scope hC frame var body (.number x)) fuel low
  | forEach var items body =>
    simp only [Run.exec]
    refine hC.bind (ih.eval frame items) fun v => ?_
    cases v with
    | array vs =>
      simp only [Value.rename, Value.renameItems_eq]
      exact hC.forItems vs (ih.scope hC frame var body)
    | str s =>
      exact hC.forEqualItems s.toList fun c => ih.scope hC frame var body (.str c.toString)
    | _ => exact hC.thrown C.flow _
  | «while» condition body =>
    simp only [Run.exec]
    exact hC.whileTrue (ih.condition hC frame condition) (ih.inner hC frame body) fuel
  | «try» body handler =>
    simp only [Run.exec]
    refine hC.bind (hC.attempt (ih.inner hC frame body)) fun r => ?_
    cases r with
    | ok flow => exact hC.pure C.flow flow
    | error e =>
      have hfailure : C.value (.failure e.message) = .failure e.message :=
        Value.rename_failure C.rename e.message
      have hhandler := ih.scope hC frame Script.failureName handler (.failure e.message)
      rw [hfailure] at hhandler
      exact hhandler
  | function code => exact hnormal
  | «return» value =>
    cases value with
    | none => exact hC.pure C.flow (.return .nil)
    | some e =>
      simp only [Run.exec]
      exact hC.bind (ih.eval frame e) fun v => hC.pure C.flow (.return v)
  | throw e =>
    simp only [Run.exec]
    refine hC.bind (ih.eval frame e) fun v => ?_
    rw [thrownMessage_rename]
    exact hC.thrown C.flow _
  | «break» => exact hC.pure C.flow .break
  | «continue» => exact hC.pure C.flow .continue

end EvaluatorCorresponds

/-- An invocation chooses a task and does what that asks for. -/
lemma EvaluatorCorresponds.invoke_succ {C : Correspondence σ} {S : Backend σ} {fuel : Nat}
    (ih : EvaluatorCorresponds C S fuel) (hC : C.Lawful S) (name : String)
    (args : List Value) :
    C.rel C.value (Run.invoke S (fuel + 1) name args)
      (Run.invoke S (fuel + 1) name (args.map C.value)) := by
  rw [invoke_eq, invoke_eq]
  refine hC.task name (hC.failed C.value (.taskNotFound name)) fun _ _ _ hhandler => ?_
  cases hhandler with
  | script code frame => exact ih.call (.function code frame) args
  | host _ hrun => exact hC.perform ih.call ih.invoke (hrun args)

/-- The evaluator corresponds to itself when the invocation of tasks does, whatever its fuel. -/
theorem evaluatorCorresponds_of_invoke {C : Correspondence σ} {S : Backend σ} (hC : C.Steps S)
    (hinvoke : ∀ fuel, EvaluatorCorresponds C S fuel → ∀ name args,
      C.rel C.value (invoke S (fuel + 1) name args)
        (invoke S (fuel + 1) name (args.map C.value))) :
    ∀ fuel, EvaluatorCorresponds C S fuel := by
  intro fuel
  induction fuel with
  | zero => exact .zero hC
  | succ fuel ih =>
    exact ⟨ih.eval_succ hC, ih.call_succ hC, hinvoke fuel ih, ih.block_succ hC, ih.exec_succ hC⟩

/-- **The evaluator corresponds to itself** under every lawful correspondence, whatever its fuel. -/
theorem evaluatorCorresponds {C : Correspondence σ} {S : Backend σ} (hC : C.Lawful S) :
    ∀ fuel, EvaluatorCorresponds C S fuel :=
  evaluatorCorresponds_of_invoke hC.toSteps fun _ ih => ih.invoke_succ hC

/-- A script corresponds to itself where its statements and its failures do. -/
lemma Hosting.runScript {C : Correspondence σ} {S : Backend σ} (hC : C.Hosting S) (fuel : Nat)
    (script : Compiled)
    (hprogram : C.rel C.flow (runProgram S fuel script.program)
      (runProgram S fuel script.program)) :
    C.rel id (runScript S fuel script) (runScript S fuel script) := by
  unfold Run.runScript
  refine hC.bind (hC.attempt hprogram) fun r => ?_
  cases r with
  | ok flow => exact hC.pure id ()
  | error e =>
    by_cases hadvanced : script.tier = .advanced
    · simp only [if_pos hadvanced, Except.map]
      exact hC.bind (hC.emit _ _) fun _ => hC.failed id e
    · simp only [if_neg hadvanced, Except.map]
      exact hC.failed id e

end Correspondence

end ScriptedNotes.Run
