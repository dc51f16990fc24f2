import Mathlib.Tactic.Common
import ScriptedNotes.Proofs.Run.Halting

/-!
The evaluator, form by form. What an expression does is put together from what its parts do, and
what a statement does from what its expressions and its blocks do; so both halt, as a discipline
asks, when these do. Every function of the evaluator has one unit of fuel more than what it calls.
How much that is may vary (`fuels`): a run that is to end is looked at with more and more fuel, a
run that may be cut short with a fixed amount. Loops over conditions and ranges are left out:
however much fuel there is, they may use it up.
-/

namespace ScriptedNotes

namespace Script

/-- The expression of a part of a template, if it has one. -/
def TemplatePart.exprs : TemplatePart → List Expr
  | .text _ => []
  | .expr e => [e]

/-- The expressions that an expression is evaluated from. -/
def Expr.parts : Expr → List Expr
  | .template parts => parts.flatMap TemplatePart.exprs
  | .array items => items
  | .unary _ operand => [operand]
  | .binary _ left right => [left, right]
  | .call callee args => callee :: args
  | .member object _ => [object]
  | .index object key => [object, key]
  | .number _ | .str _ | .bool _ | .nil | .ident _ | .lambda _ => []

/-- The indices on the path to the target of an assignment. -/
def Expr.indices : Expr → List Expr
  | .member object _ => object.indices
  | .index object key => key :: object.indices
  | .number _ | .str _ | .template _ | .bool _ | .nil | .array _ | .ident _ | .unary _ _
  | .binary _ _ _ | .call _ _ | .lambda _ => []

def Branch.condition : Branch → Expr
  | .mk condition _ => condition

def Branch.body : Branch → List Stmt
  | .mk _ body => body

namespace Stmt

/-- The expressions that a statement evaluates in its own frame. -/
def exprs : Stmt → List Expr
  | .declare _ _ value | .return value => value.toList
  | .assign target value => value :: target.indices
  | .expr e | .throw e => [e]
  | .cond branches _ => branches.map Branch.condition
  | .forRange _ start stop _ => [start, stop]
  | .forEach _ items _ => [items]
  | .while condition _ => [condition]
  | .try .. | .function _ | .break | .continue => []

/-- The blocks that a statement runs in scopes of their own. -/
def blocks : Stmt → List (List Stmt)
  | .cond branches otherwise => otherwise.toList ++ branches.map Branch.body
  | .forRange _ _ _ body | .forEach _ _ body | .while _ body => [body]
  | .try body handler => [body, handler]
  | .declare .. | .assign .. | .expr _ | .function _ | .return _ | .throw _ | .break
  | .continue => []

/-- Whether the parts of a statement run in scopes of their own. -/
def nests : Stmt → Bool
  | .cond .. | .forRange .. | .forEach .. | .while .. | .try .. => true
  | .declare .. | .assign .. | .expr _ | .function _ | .return _ | .throw _ | .break
  | .continue => false

/-- Whether a statement may go on for ever by itself. -/
def repeats : Stmt → Bool
  | .forRange .. | .while .. => true
  | .cond .. | .forEach .. | .try .. | .declare .. | .assign .. | .expr _ | .function _ | .return _
  | .throw _ | .break | .continue => false

end Stmt

/-! ### Parts are smaller -/

section

variable {e e' : Expr} {s : Stmt}

lemma eq_or_eq_of_mem {α : Type} {a b c : α} (h : a ∈ [b, c]) : a = b ∨ a = c := by
  simpa using h

lemma Expr.sizeOf_lt_of_mem_parts (h : e' ∈ e.parts) : sizeOf e' < sizeOf e := by
  cases e with
  | template parts =>
    obtain ⟨part, hpart, he⟩ := List.mem_flatMap.1 h
    have hlt := List.sizeOf_lt_of_mem hpart
    cases part with
    | text s => cases he
    | expr e =>
      obtain rfl := List.mem_singleton.1 he
      simp only [TemplatePart.expr.sizeOf_spec] at hlt
      simp only [Expr.template.sizeOf_spec]
      omega
  | array items =>
    have hlt := List.sizeOf_lt_of_mem (show e' ∈ items from h)
    simp only [Expr.array.sizeOf_spec]
    omega
  | call callee args =>
    simp only [Expr.call.sizeOf_spec]
    rcases List.mem_cons.1 h with rfl | harg
    · omega
    · have hlt := List.sizeOf_lt_of_mem harg
      omega
  | unary | member =>
    obtain rfl := List.mem_singleton.1 h
    simp only [Expr.unary.sizeOf_spec, Expr.member.sizeOf_spec]
    omega
  | binary | index =>
    simp only [Expr.binary.sizeOf_spec, Expr.index.sizeOf_spec]
    obtain rfl | rfl := eq_or_eq_of_mem h
    all_goals omega
  | _ => cases h

lemma Expr.sizeOf_lt_of_mem_indices : ∀ {e : Expr}, e' ∈ e.indices → sizeOf e' < sizeOf e
  | .member object _, h => by
    have hlt : sizeOf e' < sizeOf object := sizeOf_lt_of_mem_indices h
    simp only [Expr.member.sizeOf_spec]
    omega
  | .index object key, h => by
    simp only [Expr.index.sizeOf_spec]
    rcases List.mem_cons.1 h with rfl | hobject
    · omega
    · have hlt := sizeOf_lt_of_mem_indices hobject
      omega
  | .number _, h | .str _, h | .template _, h | .bool _, h | .nil, h | .array _, h | .ident _, h
  | .unary _ _, h | .binary _ _ _, h | .call _ _, h | .lambda _, h => by cases h

namespace Stmt

lemma sizeOf_lt_of_mem_exprs (h : e ∈ s.exprs) : sizeOf e < sizeOf s := by
  cases s with
  | declare | «return» =>
    obtain rfl := Option.mem_toList.1 h
    simp only [Stmt.declare.sizeOf_spec, Stmt.return.sizeOf_spec, Option.some.sizeOf_spec]
    omega
  | assign target value =>
    simp only [Stmt.assign.sizeOf_spec]
    rcases List.mem_cons.1 h with rfl | hindex
    · omega
    · have hlt := Expr.sizeOf_lt_of_mem_indices hindex
      omega
  | expr | throw | forEach | «while» =>
    obtain rfl := List.mem_singleton.1 h
    simp only [Stmt.expr.sizeOf_spec, Stmt.throw.sizeOf_spec, Stmt.forEach.sizeOf_spec,
      Stmt.while.sizeOf_spec]
    omega
  | forRange =>
    simp only [Stmt.forRange.sizeOf_spec]
    obtain rfl | rfl := eq_or_eq_of_mem h
    all_goals omega
  | cond branches otherwise =>
    obtain ⟨⟨condition, body⟩, hbranch, rfl⟩ := List.mem_map.1 h
    have hlt := List.sizeOf_lt_of_mem hbranch
    simp only [Branch.mk.sizeOf_spec] at hlt
    simp only [Stmt.cond.sizeOf_spec, Branch.condition]
    omega
  | _ => cases h

lemma sizeOf_lt_of_mem_blocks {body : List Stmt} (h : body ∈ s.blocks) :
    sizeOf body < sizeOf s := by
  cases s with
  | forRange | forEach | «while» =>
    obtain rfl := List.mem_singleton.1 h
    simp only [Stmt.forRange.sizeOf_spec, Stmt.forEach.sizeOf_spec, Stmt.while.sizeOf_spec]
    omega
  | «try» =>
    simp only [Stmt.try.sizeOf_spec]
    obtain rfl | rfl := eq_or_eq_of_mem h
    all_goals omega
  | cond branches otherwise =>
    simp only [Stmt.cond.sizeOf_spec]
    rcases List.mem_append.1 h with hotherwise | hbranch
    · obtain rfl := Option.mem_toList.1 hotherwise
      simp only [Option.some.sizeOf_spec]
      omega
    · obtain ⟨⟨condition, body⟩, hmem, rfl⟩ := List.mem_map.1 hbranch
      have hlt := List.sizeOf_lt_of_mem hmem
      simp only [Branch.mk.sizeOf_spec] at hlt
      simp only [Branch.body]
      omega
  | _ => cases h

end Stmt

end

end Script

namespace Run.Discipline

open Script (Function Stmt Expr Branch TemplatePart)

variable {σ : Type} {D : Discipline σ} {S : Backend σ} {m : Machine σ} {frame : FrameId}
variable {fuels : Nat → Nat}

section

/-- The target of an assignment, whose indices are evaluated. -/
lemma halts_targetOf :
    ∀ (target : Expr) (path : List Key) {m : Machine σ},
      (∀ e ∈ target.indices, ∀ m', D.Leads m m' →
        D.Halts m' (fun n => eval S (fuels n) frame e) fun _ _ => True) →
      D.Halts m (fun n => Exec.targetOf (eval S (fuels n) frame) target path) fun _ _ => True
  | .ident _, _, _, _ => halts_pure trivial
  | .member object property, path, _, h => halts_targetOf object (.field property :: path) h
  | .index object index, path, m, h => by
    refine Halts.here fun hstay => ?_
    refine (h index (by simp [Expr.indices]) m hstay).bind fun m₁ v h₁ _ => ?_
    refine halts_targetOf object (.index v :: path) fun e he m' h' => ?_
    exact h e (by simp [Expr.indices, he]) m' (h₁.trans h')
  | .number _, _, _, _ | .str _, _, _, _ | .template _, _, _, _ | .bool _, _, _, _ | .nil, _, _, _
  | .array _, _, _, _ | .unary _ _, _, _, _ | .binary _ _ _, _, _, _ | .call _ _, _, _, _
  | .lambda _, _, _, _ => halts_throw _

variable (hD : D.Lawful)

include hD

lemma halts_values (es : List Expr)
    (h : ∀ e ∈ es, ∀ m', D.Leads m m' → D.Halts m' (fun n => eval S (fuels n) frame e) D.Fair) :
    D.Halts m (fun n => Exec.each (eval S (fuels n) frame) es) D.FairAll :=
  halts_each (fun _ _ _ hlead hv => hlead.fair hD hv) es h

/-- Expressions, one case for each form. -/
theorem halts_eval {e : Expr}
    (hparts : ∀ e' ∈ e.parts, ∀ m', D.Leads m m' →
      D.Halts m' (fun n => eval S (fuels n) frame e') D.Fair)
    (hcall : ∀ m' f args, D.Leads m m' → D.Fair m'.heap f → D.FairAll m'.heap args →
      D.Halts m' (fun n => call S (fuels n) f args) D.Fair)
    (hlambda : ∀ code, e = .lambda code → D.allowed m.heap code frame) :
    D.Halts m (fun n => eval S (fuels n + 1) frame e) D.Fair := by
  refine Halts.here fun hstay => ?_
  cases e with
  | number x => exact halts_pure (.number x)
  | str s => exact halts_pure (.str s)
  | bool b => exact halts_pure (.bool b)
  | nil => exact halts_pure .nil
  | template parts =>
    simp only [eval]
    refine (halts_each (R := fun _ _ => True) (fun _ _ _ _ _ => trivial) parts
      fun part hpart m' hlead => ?_).bind fun _ _ _ _ => halts_pure (.str _)
    cases part with
    | text s => exact halts_pure trivial
    | expr e =>
      have he : e ∈ (Expr.template parts).parts :=
        List.mem_flatMap.2 ⟨.expr e, hpart, List.mem_singleton_self e⟩
      exact (hparts e he m' hlead).bind fun _ _ _ _ => halts_pure trivial
  | array items =>
    simp only [eval]
    exact (halts_values hD items hparts).bind fun _ vs _ hvs => halts_pure (.array hvs)
  | ident name => exact (hD.safe_resolve frame name).halts
  | unary op operand =>
    have hoperand := hparts operand (by simp [Expr.parts]) m hstay
    cases op with
    | not =>
      simp only [eval]
      exact hoperand.bind fun _ _ _ _ => halts_pure (.bool _)
    | neg =>
      simp only [eval]
      refine hoperand.bind fun _ v _ _ => ?_
      exact (halts_ofExcept (Q := fun _ _ => True) fun _ _ => trivial).bind fun _ _ _ _ =>
        halts_pure (.number _)
  | binary op left right =>
    simp only [eval]
    refine (hparts left (by simp [Expr.parts]) m hstay).bind fun m₁ l h₁ hl => ?_
    have hright := hparts right (by simp [Expr.parts]) m₁ h₁
    have happly : D.Halts m₁
        (fun n => do Exec.ofExcept (applyBinary op l (← eval S (fuels n) frame right))) D.Fair :=
      hright.bind fun m₂ r h₂ hr =>
        halts_ofExcept fun v hv => allClosures_applyBinary (h₂.fair hD hl) hr hv
    cases op with
    | and =>
      dsimp only
      split
      · exact hright
      · exact halts_pure hl
    | or =>
      dsimp only
      split
      · exact halts_pure hl
      · exact hright
    | _ => exact happly
  | call callee args =>
    have happly : ∀ m' f, D.Leads m m' → D.Fair m'.heap f → D.Halts m'
        (fun n => do call S (fuels n) f (← Exec.each (eval S (fuels n) frame) args)) D.Fair := by
      intro m' f hlead hf
      have hvalues : D.Halts m' (fun n => Exec.each (eval S (fuels n) frame) args) D.FairAll :=
        halts_values hD args fun e he m'' h' =>
          hparts e (by simp [Expr.parts, he]) m'' (hlead.trans h')
      exact hvalues.bind fun m'' vs h' hvs => hcall m'' f vs (hlead.trans h') (h'.fair hD hf) hvs
    cases callee with
    | ident name => exact (hD.safe_resolveCallable frame name).halts.bind happly
    | _ => exact (hparts _ (by simp [Expr.parts]) m hstay).bind happly
  | member object property =>
    simp only [eval]
    exact (hparts object (by simp [Expr.parts]) m hstay).bind fun _ o _ ho =>
      halts_ofExcept fun v hv => allClosures_member ho hv
  | index object index =>
    simp only [eval]
    refine (hparts object (by simp [Expr.parts]) m hstay).bind fun m₁ o h₁ ho => ?_
    refine (hparts index (by simp [Expr.parts]) m₁ h₁).bind fun m₂ i h₂ _ => ?_
    exact halts_ofExcept fun v hv => allClosures_elementOf (h₂.fair hD ho) hv
  | lambda code => exact halts_pure (.function (hlambda code rfl))

/-- A call of a function of a script runs its body one level deeper, or not at all. -/
theorem halts_callFunction {code : Function} {args : List Value}
    (hstray : ∀ m, D.Inv m → D.Leads m { m with strays := m.strays + 1 })
    (hcode : D.allowed m.heap code frame) (hargs : D.FairAll m.heap args)
    (hbody : ∀ m' inner, m.depth < maxDepth → D.Leads m.deeper m' → D.owns m'.heap inner →
      D.Halts m' (fun n => execBlock S (fuels n) inner code.body) D.FairFlow) :
    D.Halts m (fun n => call S (fuels n + 1) (.function code frame) args) D.Fair := by
  have hframe : D.sees m.deeper.heap frame := hD.sees_of_allowed _ code frame hcode
  have hargs' : D.FairAll m.deeper.heap args := hargs
  simp only [call]
  refine halts_nested hD fun hlt => ?_
  refine (hD.safe_newFrame hframe).halts.bind fun m₁ inner h₁ hinner => ?_
  have hbind : D.Safe m₁ (Exec.bindParams inner code.params args) fun _ _ => True :=
    hD.safe_bindParams code.params args hinner (h₁.fairAll hD hargs')
  refine hbind.halts.bind fun m₂ _ h₂ _ => ?_
  refine (hbody m₂ inner hlt (h₁.trans h₂) (h₂.owns hD hinner)).bind fun m₃ flow _ hflow => ?_
  exact (safe_endCall (hstray m₃) hflow).halts

/-- The task of a name is what the registry has at that moment. -/
theorem halts_invoke (name : String) {args : List Value} (hargs : D.FairAll m.heap args)
    (hscript : ∀ m' code frame, D.Leads m m' → D.allowed m'.heap code frame →
      D.FairAll m'.heap args →
      D.Halts m' (fun n => call S (fuels n) (.function code frame) args) D.Fair)
    (hhost : ∀ m' run inRun, D.Leads m m' → D.admits m'.heap name (.host run inRun) →
      D.FairAll m'.heap args →
      D.Halts m' (fun n => Exec.perform S (call S (fuels n)) (invoke S (fuels n)) (run args))
        D.Fair) :
    D.Halts m (fun n => invoke S (fuels n + 1) name args) D.Fair := by
  simp only [invoke]
  refine hD.safe_getTasks.halts.bind fun m₁ r h₁ hr => ?_
  have hargs₁ := h₁.fairAll hD hargs
  cases hk : Keyed.get? name r with
  | none => exact (safe_fail _).halts
  | some task =>
    obtain ⟨description, handler⟩ := task
    have hadmits := hr _ (mem_of_get? hk)
    cases handler with
    | script code frame =>
      have hallowed := hD.permits_of_admits _ _ _ hadmits _ (hD.later_allowed _)
      exact hscript m₁ code frame h₁ hallowed hargs₁
    | host run inRun => exact hhost m₁ run inRun h₁ hadmits hargs₁

/-- A block declares its functions and runs its statements. -/
theorem halts_block {stmts : List Stmt} (howns : D.owns m.heap frame)
    (hcode : ∀ code, Stmt.function code ∈ stmts → D.allowed m.heap code frame)
    (hstmts : ∀ s ∈ stmts, ∀ m', D.Leads m m' →
      D.Halts m' (fun n => exec S (fuels n) frame s) D.FairFlow) :
    D.Halts m (fun n => execBlock S (fuels n + 1) frame stmts) D.FairFlow := by
  simp only [execBlock]
  refine (hD.safe_hoist stmts howns hcode).halts.bind fun m₁ _ h₁ _ => ?_
  exact halts_sequence (fun _ => trivial) stmts fun s hs m' h' => hstmts s hs m' (h₁.trans h')

/-- A block in a scope of its own. -/
lemma halts_inner {body : List Stmt} (hsees : D.sees m.heap frame)
    (hbody : ∀ m' f, D.Leads m m' → D.owns m'.heap f →
      D.Halts m' (fun n => execBlock S (fuels n) f body) D.FairFlow) :
    D.Halts m (fun n => do execBlock S (fuels n) (← Exec.newFrame frame) body) D.FairFlow :=
  (hD.safe_newFrame hsees).halts.bind fun m' f hlead hf => hbody m' f hlead hf

/-- A block in a scope of its own with one variable. -/
lemma halts_round (var : String) {body : List Stmt} {v : Value} (hsees : D.sees m.heap frame)
    (hv : D.Fair m.heap v)
    (hbody : ∀ m' f, D.Leads m m' → D.owns m'.heap f →
      D.Halts m' (fun n => execBlock S (fuels n) f body) D.FairFlow) :
    D.Halts m
      (fun n => do
        let f ← Exec.newFrame frame
        Exec.declare f var v false
        execBlock S (fuels n) f body) D.FairFlow := by
  refine (hD.safe_newFrame hsees).halts.bind fun m₁ f h₁ hf => ?_
  refine (hD.safe_declare hf (h₁.fair hD hv)).halts.bind fun m₂ _ h₂ _ => ?_
  exact hbody m₂ f (h₁.trans h₂) (h₂.owns hD hf)

/-- Statements, one case for each form. Those that run their parts in scopes of their own need not
own their frame. -/
theorem halts_exec {s : Stmt} (hsees : D.sees m.heap frame)
    (howns : s.nests = false → D.owns m.heap frame) (hrepeats : s.repeats = false)
    (hexprs : ∀ e ∈ s.exprs, ∀ m', D.Leads m m' →
      D.Halts m' (fun n => eval S (fuels n) frame e) D.Fair)
    (hblocks : ∀ body ∈ s.blocks, ∀ m' f, D.Leads m m' → D.owns m'.heap f →
      D.Halts m' (fun n => execBlock S (fuels n) f body) D.FairFlow) :
    D.Halts m (fun n => exec S (fuels n + 1) frame s) D.FairFlow := by
  refine Halts.here fun hstay => ?_
  have hnormal : ∀ m' : Machine σ, D.Halts m' (fun _ => (pure .normal : Exec σ Flow))
      D.FairFlow := fun _ => halts_pure trivial
  cases s with
  | declare constant name value =>
    cases value with
    | none =>
      simp only [exec]
      exact (hD.safe_declare (howns rfl) .nil).halts.bind fun m' _ _ _ => hnormal m'
    | some e =>
      simp only [exec]
      refine (hexprs e (by simp [Stmt.exprs]) m hstay).bind fun m₁ v h₁ hv => ?_
      have hdeclare : D.Safe m₁ (Exec.declare frame name v constant) fun _ _ => True :=
        hD.safe_declare (h₁.owns hD (howns rfl)) hv
      exact hdeclare.halts.bind fun m' _ _ _ => hnormal m'
  | assign target value =>
    simp only [exec]
    refine (hexprs value (by simp [Stmt.exprs]) m hstay).bind fun m₁ v h₁ hv => ?_
    have htarget : D.Halts m₁ (fun n => Exec.targetOf (eval S (fuels n) frame) target [])
        fun _ _ => True :=
      halts_targetOf target [] fun e he m' h' =>
        (hexprs e (by simp [Stmt.exprs, he]) m' (h₁.trans h')).mono fun _ _ _ => trivial
    refine htarget.bind fun m₂ r h₂ _ => ?_
    have hassign : D.Safe m₂ (Exec.assignPath frame r.1 r.2 v) fun _ _ => True :=
      hD.safe_assignPath ((h₁.trans h₂).sees hD hsees) (h₂.fair hD hv)
    exact hassign.halts.bind fun m' _ _ _ => hnormal m'
  | expr e =>
    have hdiscard : D.Halts m (fun n => discard <| eval S (fuels n) frame e) fun _ _ => True :=
      (hexprs e (by simp [Stmt.exprs]) m hstay).bind fun _ _ _ _ => halts_pure trivial
    simp only [exec]
    exact hdiscard.bind fun m' _ _ _ => hnormal m'
  | cond branches otherwise =>
    simp only [exec]
    refine (halts_first? branches fun b hb m' hlead => ?_).bind fun m' r hlead hr => ?_
    · obtain ⟨condition, body⟩ := b
      have hcondition := hexprs condition (List.mem_map_of_mem (f := Branch.condition) hb) m' hlead
      exact hcondition.bind fun _ _ _ _ => halts_pure trivial
    · have hbody : ∀ body ∈ (Stmt.cond branches otherwise).blocks, D.Halts m'
          (fun n => do execBlock S (fuels n) (← Exec.newFrame frame) body) D.FairFlow :=
        fun body hmem => halts_inner hD (hlead.sees hD hsees) fun m'' f h' =>
          hblocks body hmem m'' f (hlead.trans h')
      cases r with
      | some b =>
        obtain ⟨condition, body⟩ := b
        have hmem : body ∈ branches.map Branch.body :=
          List.mem_map_of_mem (f := Branch.body) (hr _ rfl)
        exact hbody body (List.mem_append_right _ hmem)
      | none =>
        cases otherwise with
        | none => exact halts_pure trivial
        | some body => exact hbody body (by simp [Stmt.blocks])
  | forEach var items body =>
    simp only [exec]
    refine (hexprs items (by simp [Stmt.exprs]) m hstay).bind fun m₁ v h₁ hv => ?_
    have hround : ∀ m', D.Leads m₁ m' → ∀ v, D.Fair m'.heap v → D.Halts m'
        (fun n => do
          let f ← Exec.newFrame frame
          Exec.declare f var v false
          execBlock S (fuels n) f body) D.FairFlow :=
      fun m' h' v hv => halts_round hD var ((h₁.trans h').sees hD hsees) hv fun m'' f h'' =>
        hblocks body (by simp [Stmt.blocks]) m'' f ((h₁.trans h').trans h'')
    cases hv with
    | array hvs =>
      exact halts_forItems (leaves_fairFlow D) _ fun v hv m' h' =>
        hround m' h' v (h'.fair hD (hvs v hv))
    | str s =>
      exact halts_forItems (leaves_fairFlow D) _ fun c _ m' h' => hround m' h' _ (.str c.toString)
    | _ => exact halts_throw _
  | «try» body handler =>
    simp only [exec]
    have hbody : D.Halts m (fun n => do execBlock S (fuels n) (← Exec.newFrame frame) body)
        D.FairFlow :=
      halts_inner hD hsees fun m' f h' => hblocks body (by simp [Stmt.blocks]) m' f h'
    refine hbody.attempt.bind fun m₁ r h₁ hr => ?_
    cases r with
    | ok flow => exact halts_pure (hr flow rfl)
    | error e =>
      refine halts_round hD _ (h₁.sees hD hsees) (Value.allClosures_failure e.message)
        fun m' f h' => ?_
      exact hblocks handler (by simp [Stmt.blocks]) m' f (h₁.trans h')
  | function code => exact hnormal m
  | «return» value =>
    cases value with
    | none => exact halts_pure .nil
    | some e =>
      simp only [exec]
      exact (hexprs e (by simp [Stmt.exprs]) m hstay).bind fun _ v _ hv => halts_pure hv
  | throw e =>
    simp only [exec]
    exact (hexprs e (by simp [Stmt.exprs]) m hstay).bind fun _ _ _ _ => halts_throw _
  | «break» => exact halts_pure trivial
  | «continue» => exact halts_pure trivial
  | forRange var start stop body => cases hrepeats
  | «while» condition body => cases hrepeats

end

end Run.Discipline

end ScriptedNotes
