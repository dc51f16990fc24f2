import Mathlib.Tactic.Common
import ScriptedNotes.Proofs.Run.Keeps

/-!
The functions of scripts that a run can get hold of. A property of functions holds of a value, of
the frames and of the registry when it holds of every function in them. No step of a run but the
evaluation of a function makes a new one, so a state whose functions have the property is left in
such a state (`FunctionInvariant` and the rules that follow it).
-/

namespace ScriptedNotes.Run

open Script (Function Stmt Expr)

/-- Every function in the value has the property. -/
inductive Value.All (P : Function → Prop) : Value → Prop where
  | nil : Value.All P .nil
  | bool (b : Bool) : Value.All P (.bool b)
  | number (x : Float) : Value.All P (.number x)
  | str (s : String) : Value.All P (.str s)
  | builtin (b : Builtin) : Value.All P (.builtin b)
  | array {items : List Value} (h : ∀ v ∈ items, Value.All P v) : Value.All P (.array items)
  | object {fields : List (String × Value)} (h : ∀ p ∈ fields, Value.All P p.2) :
      Value.All P (.object fields)
  | function {code : Function} (frame : FrameId) (h : P code) : Value.All P (.function code frame)

variable {P : Function → Prop}

/-- The property of functions alone, whatever frames they were made in. -/
abbrev Anywhere (P : Function → Prop) : Function → FrameId → Prop :=
  fun code _ => P code

/-! ### Operators -/

namespace Value

lemma all_iff {v : Value} : v.All P ↔ v.AllClosures (Anywhere P) := by
  constructor
  · intro h
    induction h with
    | nil => exact .nil
    | bool b => exact .bool b
    | number x => exact .number x
    | str s => exact .str s
    | builtin b => exact .builtin b
    | array _ ih => exact .array ih
    | object _ ih => exact .object ih
    | function _ h => exact .function h
  · intro h
    induction h with
    | nil => exact .nil
    | bool b => exact .bool b
    | number x => exact .number x
    | str s => exact .str s
    | builtin b => exact .builtin b
    | array _ ih => exact .array ih
    | object _ ih => exact .object ih
    | function h => exact .function _ h

lemma all_failure (message : String) : (failure message).All P :=
  all_iff.2 (allClosures_failure message)

end Value

open Value

lemma all_applyBinary {op : Script.BinaryOp} {l r v : Value} (hl : l.All P) (hr : r.All P)
    (h : applyBinary op l r = .ok v) : v.All P :=
  all_iff.2 (allClosures_applyBinary (all_iff.1 hl) (all_iff.1 hr) h)

lemma all_member {o v : Value} {property : String} (ho : o.All P)
    (h : member o property = .ok v) : v.All P :=
  all_iff.2 (allClosures_member (all_iff.1 ho) h)

lemma all_elementOf {o i v : Value} (ho : o.All P) (h : elementOf o i = .ok v) : v.All P :=
  all_iff.2 (allClosures_elementOf (all_iff.1 ho) h)

/-! ### States -/

/-- Every function that a frame binds has the property. -/
def Heap.All (P : Function → Prop) (h : Heap) : Prop :=
  ∀ frame ∈ h, ∀ p ∈ frame.bindings, p.2.value.All P

/-- A function of a script has the property; a procedure of the host brings in such functions only,
as long as it is given and replied such. -/
def Handler.All (P : Function → Prop) (handler : Handler) : Prop :=
  handler.AllClosures (Anywhere P)

def Registry.All (P : Function → Prop) (r : Registry) : Prop :=
  ∀ p ∈ r, p.2.handler.All P

/-- Every function in the frames and the registry has the property. -/
structure Machine.All {σ : Type} (P : Function → Prop) (m : Machine σ) : Prop where
  heap : m.heap.All P
  tasks : m.tasks.All P

namespace Heap

lemma all_iff {h : Heap} : h.All P ↔ h.AllClosures (Anywhere P) :=
  forall₂_congr fun _ _ => forall₂_congr fun _ _ => Value.all_iff

lemma All.declare {h : Heap} (hh : h.All P) (frame : FrameId) (name : String) {v : Value}
    (hv : v.All P) (constant : Bool) : (h.declare frame name v constant).All P :=
  all_iff.2 ((all_iff.1 hh).declare frame name (Value.all_iff.1 hv) constant)

lemma All.child {h : Heap} (hh : h.All P) (outer : List FrameId) : (h.child outer).All P :=
  all_iff.2 ((all_iff.1 hh).child outer)

lemma All.root {h : Heap} (hh : h.All P) : h.root.2.All P :=
  hh.child []

end Heap

/-- The task that is there from the start brings no function along. -/
lemma all_builtin : Registry.builtin.All P :=
  allClosures_builtin

/-! ### Steps of a run -/

variable {σ : Type} {I : Machine σ → Prop}

/-- An invariant that entails the property of all functions in reach, and that can only be broken by
a frame or a registry with other functions. -/
structure FunctionInvariant (P : Function → Prop) (I : Machine σ → Prop) : Prop
    extends Exec.Inward I where
  all : ∀ m, I m → m.All P
  heap : ∀ m f, I m → (f m.heap).All P → I (m.mapHeap f)
  tasks : ∀ m r, I m → r.All P → I { m with tasks := r }

namespace FunctionInvariant

open Exec Discipline

/-- Such an invariant is a lawful discipline, to which frames do not matter. -/
lemma lawful (hI : FunctionInvariant P I) : (keeping (Anywhere P) I).Lawful where
  later_allowed _ := rfl
  later_mono _ _ _ _ h := h
  of_later _ _ _ _ h hcode := h ▸ hcode
  sees_mono _ _ _ _ _ := trivial
  owns_mono _ _ _ _ _ := trivial
  sees_of_owns _ _ _ := trivial
  sees_of_allowed _ _ _ _ := trivial
  heap m h := Heap.all_iff.1 (hI.all m h).heap
  tasks m h := (hI.all m h).tasks
  permits_of_admits _ _ _ h _ hP := hP ▸ h
  admits_script _ _ _ _ hcode := hcode
  newFrame m _ h _ := ⟨⟨h, trivial, hI.heap m _ h ((hI.all m h).heap.child _)⟩, trivial⟩
  declare m frame name _ constant h _ hv :=
    ⟨h, trivial,
      hI.heap m _ h ((hI.all m h).heap.declare frame name (Value.all_iff.2 hv) constant)⟩
  assign m frame name _ place h _ hv _ :=
    ⟨h, trivial, hI.heap (m.noteUnbound frame name) _ (hI.unbound m _ h)
      ((hI.all m h).heap.declare place name (Value.all_iff.2 hv) false)⟩
  register m _ _ _ h _ hhandler :=
    ⟨h, trivial, hI.tasks m _ h (forall_put (A := fun p : String × Task => p.2.handler.All P)
      hhandler (hI.all m h).tasks)⟩
  line m _ h := ⟨h, trivial, hI.output m _ _ h⟩
  cleared m h := ⟨h, trivial, hI.output m _ _ h⟩
  slept m _ h := ⟨h, trivial, hI.output m _ _ h⟩
  changed m _ _ _ h := ⟨h, trivial, hI.store m _ _ h⟩
  read m _ _ _ h := ⟨h, trivial, hI.store m _ _ h⟩
  deeper m _ h := hI.depth m _ _ h
  shallower _ m' _ h h' := ⟨h, trivial, hI.depth m' _ _ h'.after⟩

/-- The values of such computations hold functions with the property only. -/
lemma keepsValue {x : Exec σ Value}
    (h : ∀ m, (keeping (Anywhere P) I).Safe m x (keeping (Anywhere P) I).Fair) :
    Keeps I x fun v => v.All P :=
  (keeps_iff _).2 fun m => (h m).mono fun _ _ hv => Value.all_iff.2 hv

lemma fairAll {h : Heap} {args : List Value} (hargs : ∀ v ∈ args, v.All P) :
    (keeping (Anywhere P) I).FairAll h args :=
  fun v hv => Value.all_iff.1 (hargs v hv)

lemma newFrame (hI : FunctionInvariant P I) (frame : FrameId) :
    Keeps I (Exec.newFrame frame) fun _ => True :=
  (keeps_iff _).2 fun _ => (hI.lawful.safe_newFrame trivial).mono fun _ _ _ => trivial

lemma declare (hI : FunctionInvariant P I) (frame : FrameId) (name : String) {v : Value}
    (hv : v.All P) (constant : Bool) :
    Keeps I (Exec.declare frame name v constant) fun _ => True :=
  (keeps_iff _).2 fun _ => hI.lawful.safe_declare trivial (Value.all_iff.1 hv)

lemma getTasks (hI : FunctionInvariant P I) : Keeps I Exec.getTasks fun r => r.All P :=
  keeps_getTasks fun m hm => (hI.all m hm).tasks

lemma resolve (hI : FunctionInvariant P I) (frame : FrameId) (name : String) :
    Keeps I (Exec.resolve frame name) fun v => v.All P :=
  keepsValue fun _ => hI.lawful.safe_resolve frame name

lemma resolveCallable (hI : FunctionInvariant P I) (frame : FrameId) (name : String) :
    Keeps I (Exec.resolveCallable frame name) fun v => v.All P :=
  keepsValue fun _ => hI.lawful.safe_resolveCallable frame name

lemma assignPath (hI : FunctionInvariant P I) (frame : FrameId) (name : String) (path : List Key)
    {v : Value} (hv : v.All P) : Keeps I (Exec.assignPath frame name path v) fun _ => True :=
  (keeps_iff _).2 fun _ => hI.lawful.safe_assignPath trivial (Value.all_iff.1 hv)

lemma bindParams (hI : FunctionInvariant P I) (frame : FrameId) (names : List String)
    (args : List Value) (hargs : ∀ v ∈ args, v.All P) :
    Keeps I (Exec.bindParams frame names args) fun _ => True :=
  (keeps_iff _).2 fun _ => hI.lawful.safe_bindParams names args trivial (fairAll hargs)

lemma hoist (hI : FunctionInvariant P I) (frame : FrameId) (stmts : List Stmt)
    (h : ∀ code, Stmt.function code ∈ stmts → P code) :
    Keeps I (Exec.hoist frame stmts) fun _ => True :=
  (keeps_iff _).2 fun _ => hI.lawful.safe_hoist stmts trivial h

/-- A procedure of the host, when what it may ask for keeps the invariant. -/
theorem perform (hI : FunctionInvariant P I) (S : Backend σ)
    {call : Value → List Value → Exec σ Value} {invoke : String → List Value → Exec σ Value}
    (hcall : ∀ f args, f.All P → (∀ v ∈ args, v.All P) → Keeps I (call f args) fun v => v.All P)
    (hinvoke : ∀ name args, (∀ v ∈ args, v.All P) → Keeps I (invoke name args) fun v => v.All P)
    {a : Action} (h : a.AllClosures (Anywhere P)) :
    Keeps I (Exec.perform S call invoke a) fun v => v.All P := by
  have hfair : ∀ {x : Exec σ Value}, Keeps I x (fun v => v.All P) → ∀ m,
      (keeping (Anywhere P) I).Halts m (fun _ => x) (keeping (Anywhere P) I).Fair := fun hx m =>
    (((keeps_iff _).1 hx m).mono fun _ _ hv => Value.all_iff.1 hv).halts
  have hall : ∀ {args : List Value}, (∀ v ∈ args, v.AllClosures (Anywhere P)) →
      ∀ v ∈ args, v.All P := fun hargs v hv => Value.all_iff.2 (hargs v hv)
  refine keepsValue fun m => halts_const_iff.1 (halts_perform hI.lawful S (fun _ hP => hP ▸ h) ?_)
  exact {
    call := fun m' f args _ _ _ hf hargs =>
      hfair (hcall f args (Value.all_iff.2 hf) (hall hargs)) m'
    invoke := fun m' name args _ _ _ hargs => hfair (hinvoke name args (hall hargs)) m'
    register := fun _ _ _ _ _ _ _ hrun => hrun _ rfl }

/-- A function that every script knows. -/
theorem callBuiltin (hI : FunctionInvariant P I) (S : Backend σ)
    {invoke : String → List Value → Exec σ Value} {args : List Value} (hargs : ∀ v ∈ args, v.All P)
    (hinvoke : ∀ name args, (∀ v ∈ args, v.All P) → Keeps I (invoke name args) fun v => v.All P)
    (b : Builtin) : Keeps I (Exec.callBuiltin S invoke b args) fun v => v.All P := by
  refine keepsValue fun m => hI.lawful.safe_callBuiltin S (fairAll hargs) (fun name args h => ?_) b
  have hinvoked := hinvoke name args fun v hv => Value.all_iff.2 (h v hv)
  exact ((keeps_iff _).1 hinvoked m).mono fun _ _ hv => Value.all_iff.1 hv

end FunctionInvariant

end ScriptedNotes.Run
