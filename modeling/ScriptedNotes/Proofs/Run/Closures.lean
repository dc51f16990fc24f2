import Mathlib.Tactic.Common
import ScriptedNotes.Run.Eval

/-!
The closures in a value. A function of a script stands in a value together with the frame that it
was made in, and values nest, so what a run can reach are all the closures in its values, frames and
tasks. No operator, member, index or assignment to an element makes a closure that was not in its
operands.
-/

namespace ScriptedNotes.Run

open Script (Function)

/-- Every function in the value has the property with the frame that it was made in. -/
inductive Value.AllClosures (P : Function → FrameId → Prop) : Value → Prop where
  | nil : Value.AllClosures P .nil
  | bool (b : Bool) : Value.AllClosures P (.bool b)
  | number (x : Float) : Value.AllClosures P (.number x)
  | str (s : String) : Value.AllClosures P (.str s)
  | builtin (b : Builtin) : Value.AllClosures P (.builtin b)
  | array {items : List Value} (h : ∀ v ∈ items, Value.AllClosures P v) :
      Value.AllClosures P (.array items)
  | object {fields : List (String × Value)} (h : ∀ p ∈ fields, Value.AllClosures P p.2) :
      Value.AllClosures P (.object fields)
  | function {code : Function} {frame : FrameId} (h : P code frame) :
      Value.AllClosures P (.function code frame)

variable {P R : Function → FrameId → Prop}

/-! ### Tables -/

section Tables

variable {α : Type} {A : String × α → Prop}

lemma mem_of_get? {key : String} {table : Keyed α} {a : α} (h : Keyed.get? key table = some a) :
    (key, a) ∈ table := by
  induction table with
  | nil => simp [Keyed.get?] at h
  | cons entry rest ih =>
    obtain ⟨k, b⟩ := entry
    unfold Keyed.get? at h
    split at h
    · next hk => simp_all
    · exact List.mem_cons_of_mem _ (ih h)

lemma forall_put {key : String} {a : α} {table : Keyed α} (ha : A (key, a))
    (h : ∀ p ∈ table, A p) : ∀ p ∈ Keyed.put key a table, A p := by
  induction table with
  | nil => simpa [Keyed.put] using ha
  | cons entry rest ih =>
    obtain ⟨k, b⟩ := entry
    have hb : A (k, b) := h (k, b) (by simp)
    have hrest : ∀ p ∈ rest, A p := fun p hp => h p (by simp [hp])
    unfold Keyed.put
    split
    · next hk => exact List.forall_mem_cons.2 ⟨hk ▸ ha, hrest⟩
    · split
      · exact List.forall_mem_cons.2 ⟨ha, h⟩
      · exact List.forall_mem_cons.2 ⟨hb, ih hrest⟩

end Tables

/-! ### Values -/

namespace Value

/-- The values that a value is made of. -/
def parts : Value → List Value
  | .array items => items
  | .object fields => fields.map Prod.snd
  | _ => []

lemma sizeOf_lt_of_mem_parts {v w : Value} (h : w ∈ v.parts) : sizeOf w < sizeOf v := by
  cases v with
  | array items =>
    have hlt := List.sizeOf_lt_of_mem (show w ∈ items from h)
    simp only [Value.array.sizeOf_spec]
    omega
  | object fields =>
    obtain ⟨⟨name, w⟩, hfield, rfl⟩ := List.mem_map.1 h
    have hlt := List.sizeOf_lt_of_mem hfield
    simp only [Prod.mk.sizeOf_spec] at hlt
    simp only [Value.object.sizeOf_spec]
    omega
  | _ => cases h

/-- Induction over a value and all that it is made of. -/
theorem ind {motive : Value → Prop} (h : ∀ v, (∀ w ∈ v.parts, motive w) → motive v) (v : Value) :
    motive v :=
  h v fun w _ => ind h w
termination_by sizeOf v
decreasing_by exact sizeOf_lt_of_mem_parts ‹_›

theorem AllClosures.mono (hPR : ∀ code frame, P code frame → R code frame) {v : Value}
    (h : v.AllClosures P) : v.AllClosures R := by
  induction h with
  | nil => exact .nil
  | bool b => exact .bool b
  | number x => exact .number x
  | str s => exact .str s
  | builtin b => exact .builtin b
  | array _ ih => exact .array ih
  | object _ ih => exact .object ih
  | function h => exact .function (hPR _ _ h)

/-- What holds of every closure holds of those in a value. -/
lemma allClosures_of_forall (hP : ∀ code frame, P code frame) (v : Value) : v.AllClosures P := by
  induction v using ind with
  | _ v ih =>
    cases v with
    | nil => exact .nil
    | bool b => exact .bool b
    | number x => exact .number x
    | str s => exact .str s
    | builtin b => exact .builtin b
    | array items => exact .array ih
    | object fields => exact .object fun p hp => ih p.2 (List.mem_map_of_mem hp)
    | function code frame => exact .function (hP code frame)

lemma AllClosures.headD {args : List Value} (h : ∀ v ∈ args, v.AllClosures P) :
    (args.headD .nil).AllClosures P := by
  cases args with
  | nil => exact .nil
  | cons v rest => exact h v (by simp)

lemma AllClosures.getD {table : Keyed Value} (h : ∀ p ∈ table, p.2.AllClosures P) (key : String) :
    ((Keyed.get? key table).getD .nil).AllClosures P := by
  cases hk : Keyed.get? key table with
  | none => exact .nil
  | some v => exact h _ (mem_of_get? hk)

lemma allClosures_toValue (o : Outcome) : o.toValue.AllClosures P := by
  cases o <;> exact .object (by simp [AllClosures.str])

lemma allClosures_failure (message : String) : (failure message).AllClosures P :=
  .object (by simp [AllClosures.str])

end Value

open Value

/-! ### Operators -/

lemma allClosures_sum {l r v : Value} (h : sum l r = .ok v) : v.AllClosures P := by
  unfold sum at h
  split at h <;> cases h
  · exact .number _
  · exact .str _
  · exact .str _

lemma allClosures_arithmetic {op : Script.BinaryOp} {f : Float → Float → Float} {l r v : Value}
    (h : arithmetic op f l r = .ok v) : v.AllClosures P := by
  unfold arithmetic at h
  split at h <;> cases h
  exact .number _

lemma allClosures_applyBinary {op : Script.BinaryOp} {l r v : Value} (hl : l.AllClosures P)
    (hr : r.AllClosures P) (h : applyBinary op l r = .ok v) : v.AllClosures P := by
  have hbool : ∀ {x : Except String (Option Ordering)} {f : Option Ordering → Bool},
      (x >>= fun o => (pure (.bool (f o)) : Except String Value)) = .ok v → v.AllClosures P := by
    intro x f hx
    cases x <;> cases hx
    exact .bool _
  unfold applyBinary at h
  cases op with
  | add => exact allClosures_sum h
  | sub => exact allClosures_arithmetic h
  | mul => exact allClosures_arithmetic h
  | div => exact allClosures_arithmetic h
  | rem => exact allClosures_arithmetic h
  | eq => cases h; exact .bool _
  | notEq => cases h; exact .bool _
  | lt => exact hbool h
  | le => exact hbool h
  | gt => exact hbool h
  | ge => exact hbool h
  | and => cases h; split <;> assumption
  | or => cases h; split <;> assumption

lemma allClosures_member {o v : Value} {property : String} (ho : o.AllClosures P)
    (h : member o property = .ok v) : v.AllClosures P := by
  unfold member at h
  split at h <;> cases h
  · split
    · exact .number _
    · exact .nil
  · split
    · exact .number _
    · exact .nil
  · cases ho with
    | object hf => exact AllClosures.getD hf property
  · exact .nil

lemma allClosures_elementOf {o i v : Value} (ho : o.AllClosures P) (h : elementOf o i = .ok v) :
    v.AllClosures P := by
  unfold elementOf at h
  split at h
  · next items x =>
    cases h
    cases ho with
    | array hi =>
      cases hk : (position? x).bind (items[·]?) with
      | none => exact .nil
      | some w =>
        obtain ⟨n, -, hn⟩ := Option.bind_eq_some_iff.1 hk
        exact hi w (List.mem_of_getElem? hn)
  · next s x =>
    cases h
    cases (position? x).bind (s.toList[·]?) with
    | none => exact .nil
    | some c => exact .str _
  · exact allClosures_member ho h
  · cases h
  · cases h

lemma allClosures_padded {items : List Value} (h : ∀ v ∈ items, v.AllClosures P) (n : Nat) :
    ∀ v ∈ padded items n, v.AllClosures P := by
  intro v hv
  rcases List.mem_append.1 hv with hv | hv
  · exact h v hv
  · rw [List.eq_of_mem_replicate hv]
    exact .nil

theorem allClosures_setPath {v : Value} (hv : v.AllClosures P) :
    ∀ {path : List Key} {c r : Value}, c.AllClosures P → setPath c path v = .ok r →
      r.AllClosures P := by
  intro path
  induction path with
  | nil =>
    intro c r _ h
    simp only [setPath] at h
    cases h
    exact hv
  | cons key rest ih =>
    intro c r hc h
    -- the two ways into an object differ only in how the field is named
    have hobject : ∀ {fields : List (String × Value)} {name : String},
        (∀ p ∈ fields, p.2.AllClosures P) →
        (do let e ← setPath ((Keyed.get? name fields).getD .nil) rest v
            return Value.object (Keyed.put name e fields)) = .ok r → r.AllClosures P := by
      intro fields name hf hr
      cases he : setPath ((Keyed.get? name fields).getD .nil) rest v with
      | error m => rw [he] at hr; cases hr
      | ok e =>
        rw [he] at hr
        cases hr
        exact .object (forall_put (ih (AllClosures.getD hf name) he) hf)
    simp only [setPath] at h
    split at h
    · cases hc with
      | object hf => exact hobject hf h
    · cases hc with
      | object hf => exact hobject hf h
    · next items x =>
      cases hc with
      | array hi =>
        split at h
        · next i hpos =>
          have hp := allClosures_padded hi (i + 1)
          have helem : ((padded items (i + 1))[i]?.getD .nil).AllClosures P := by
            cases hg : (padded items (i + 1))[i]? with
            | none => exact .nil
            | some w => exact hp w (List.mem_of_getElem? hg)
          cases he : setPath ((padded items (i + 1))[i]?.getD .nil) rest v with
          | error m => rw [he] at h; cases h
          | ok e =>
            rw [he] at h
            cases h
            refine .array fun w hw => ?_
            rcases List.mem_or_eq_of_mem_set hw with hw | rfl
            · exact hp w hw
            · exact ih helem he
        · cases h
    · cases h

/-! ### Frames and tasks -/

/-- Every closure that a frame binds has the property. -/
def Heap.AllClosures (P : Function → FrameId → Prop) (h : Heap) : Prop :=
  ∀ frame ∈ h, ∀ p ∈ frame.bindings, p.2.value.AllClosures P

/-- Every closure in the request has the property. -/
def Request.AllClosures (P : Function → FrameId → Prop) : Request → Prop
  | .call f args => f.AllClosures P ∧ ∀ v ∈ args, v.AllClosures P
  | .invoke _ args => ∀ v ∈ args, v.AllClosures P
  | .emit .. | .clear | .sleep _ | .change _ | .read _ | .tasks => True

/-- Every closure in the reply has the property. -/
def Request.ReplyClosures (P : Function → FrameId → Prop) :
    (request : Request) → request.Reply → Prop
  | .call .., reply | .invoke .., reply => ∀ v, reply = .ok v → v.AllClosures P
  | .emit .., _ | .clear, _ | .sleep _, _ | .change _, _ | .read _, _ | .tasks, _ => True

/-- The host's procedure asks for nothing and ends with nothing but closures with the property, as
long as it is replied such; so does every procedure that it registers. -/
inductive Action.AllClosures (P : Function → FrameId → Prop) : Action → Prop where
  | done {v : Value} (h : v.AllClosures P) : Action.AllClosures P (.done v)
  | fail (e : Error) : Action.AllClosures P (.fail e)
  | ask {request : Request} {next : request.Reply → Action} (h : request.AllClosures P)
      (hnext : ∀ reply, request.ReplyClosures P reply → Action.AllClosures P (next reply)) :
      Action.AllClosures P (.ask request next)
  | register {name description : String} {run : List Value → Action} {next : Action}
      (hrun : ∀ args : List Value, (∀ v ∈ args, v.AllClosures P) → Action.AllClosures P (run args))
      (hnext : Action.AllClosures P next) :
      Action.AllClosures P (.register name description run next)

/-- A function of a script has the property; a procedure of the host brings in such closures only
when it is given such. -/
def Handler.AllClosures (P : Function → FrameId → Prop) : Handler → Prop
  | .script code frame => P code frame
  | .host run _ => ∀ args : List Value, (∀ v ∈ args, v.AllClosures P) → (run args).AllClosures P

namespace Heap

lemma AllClosures.mono (hPR : ∀ code frame, P code frame → R code frame) {h : Heap}
    (hh : h.AllClosures P) : h.AllClosures R :=
  fun frame hframe p hp => (hh frame hframe p hp).mono hPR

lemma AllClosures.declare {h : Heap} (hh : h.AllClosures P) (frame : FrameId) (name : String)
    {v : Value} (hv : v.AllClosures P) (constant : Bool) :
    (h.declare frame name v constant).AllClosures P := by
  intro f hf
  obtain ⟨i, hi, rfl⟩ := Array.mem_iff_getElem.1 hf
  have hlt : i < Array.size h := by simpa [Heap.declare] using hi
  simp only [Heap.declare, Array.getElem_modify]
  split
  · exact forall_put (A := fun p : String × Binding => p.2.value.AllClosures P) hv
      (hh _ (Array.getElem_mem hlt))
  · exact hh _ (Array.getElem_mem hlt)

lemma AllClosures.child {h : Heap} (hh : h.AllClosures P) (outer : List FrameId) :
    (h.child outer).AllClosures P := by
  intro f hf
  rcases Array.mem_push.1 hf with hf | rfl
  · exact hh f hf
  · simp

lemma AllClosures.lookup? {h : Heap} (hh : h.AllClosures P) {frame : FrameId} {name : String}
    {v : Value} (hv : h.lookup? frame name = some v) : v.AllClosures P := by
  obtain ⟨g, -, hg⟩ := Option.bind_eq_some_iff.1 hv
  obtain ⟨b, hb, rfl⟩ := Option.map_eq_some_iff.1 hg
  obtain ⟨f, hf, hn⟩ := Option.bind_eq_some_iff.1 hb
  exact hh f (Array.mem_of_getElem? hf) _ (mem_of_get? hn)

end Heap

lemma Request.ReplyClosures.mono (hPR : ∀ code frame, P code frame → R code frame)
    {request : Request} {reply : request.Reply} (h : request.ReplyClosures P reply) :
    request.ReplyClosures R reply := by
  cases request with
  | call f args => exact fun v hv => (h v hv).mono hPR
  | invoke name args => exact fun v hv => (h v hv).mono hPR
  | _ => exact trivial

lemma Request.allClosures_of_forall (hP : ∀ code frame, P code frame) (request : Request) :
    request.AllClosures P := by
  have hvalue := Value.allClosures_of_forall hP
  cases request with
  | call f args => exact ⟨hvalue f, fun v _ => hvalue v⟩
  | invoke name args => exact fun v _ => hvalue v
  | _ => exact trivial

lemma Action.allClosures_of_forall (hP : ∀ code frame, P code frame) (a : Action) :
    a.AllClosures P := by
  induction a with
  | done v => exact .done (Value.allClosures_of_forall hP v)
  | fail e => exact .fail e
  | ask request next ih =>
    exact .ask (request.allClosures_of_forall hP) fun reply _ => ih reply
  | register name description run next ihrun ih => exact .register (fun args _ => ihrun args) ih

lemma Handler.allClosures_of_forall (hP : ∀ code frame, P code frame) :
    ∀ handler : Handler, handler.AllClosures P
  | .script code frame => hP code frame
  | .host run _ => fun args _ => (run args).allClosures_of_forall hP

namespace Action

lemma AllClosures.emit {kind : LineKind} {text : String} {next : Action} (h : next.AllClosures P) :
    (Action.emit kind text next).AllClosures P :=
  .ask trivial fun _ _ => h

lemma AllClosures.change {c : Change} {next : Outcome → Action} (h : ∀ o, (next o).AllClosures P) :
    (Action.change c next).AllClosures P := by
  refine .ask trivial fun reply _ => ?_
  cases reply with
  | ok o => exact h o
  | error e => exact .fail e

lemma AllClosures.createFiles {next : Action} (h : next.AllClosures P) :
    ∀ files : List (String × String), (Action.createFiles files next).AllClosures P
  | [] => h
  | _ :: rest => .change fun _ => AllClosures.createFiles h rest

end Action

lemma allClosures_scaffold (args : List Value) : (scaffold args).AllClosures P := by
  have hdone : (Action.done (.bool true)).AllClosures P := .done (.bool true)
  unfold scaffold
  extract_lets name template files
  split
  · exact .fail _
  · exact .emit (.change fun _ => .createFiles (.emit hdone) _)

/-! ### Tasks -/

/-- What was not registered in a run is a procedure of the host. -/
lemma host_of_hostOnly {r : Registry} (h : r.hostOnly = true) {p : String × Task} (hp : p ∈ r) :
    ∃ run, p.2.handler = .host run := by
  have hrun : p.2.handler.fromRun = false := by simpa using List.all_eq_true.1 h p hp
  cases hhandler : p.2.handler with
  | script code frame =>
    rw [hhandler] at hrun
    cases hrun
  | host run inRun =>
    rw [hhandler] at hrun
    obtain rfl : inRun = false := hrun
    exact ⟨run, rfl⟩

/-- The task that is there from the start brings no closure along. -/
lemma allClosures_builtin : ∀ p ∈ Registry.builtin, p.2.handler.AllClosures P := by
  intro p hp
  rw [List.mem_singleton.1 hp]
  exact fun args _ => allClosures_scaffold args

end ScriptedNotes.Run
