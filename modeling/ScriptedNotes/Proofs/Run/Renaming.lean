import Mathlib.Tactic.Common
import ScriptedNotes.Run.Eval

/-!
Frames under other numbers. A number says where a frame stands in the heap, and a function of a
script carries the number of the frame that it was made in. Nothing a script can see of a value
depends on that number: neither its texts nor its comparisons, and the operators, members, indices
and assignments to elements give for renamed operands what they give for the operands, renamed.
-/

namespace ScriptedNotes.Run

open Script (Function)

variable (ρ : FrameId → FrameId)

/-! ### Values -/

namespace Value

mutual

/-- The value with other numbers for the frames of its functions. -/
def rename : Value → Value
  | .nil => .nil
  | .bool b => .bool b
  | .number x => .number x
  | .str s => .str s
  | .array items => .array (renameItems items)
  | .object fields => .object (renameFields fields)
  | .function code frame => .function code (ρ frame)
  | .builtin b => .builtin b

def renameItems : List Value → List Value
  | [] => []
  | v :: rest => rename v :: renameItems rest

def renameFields : List (String × Value) → List (String × Value)
  | [] => []
  | (k, v) :: rest => (k, rename v) :: renameFields rest

end

@[simp] lemma renameItems_eq (vs : List Value) : renameItems ρ vs = vs.map (rename ρ) := by
  induction vs with
  | nil => rfl
  | cons v rest ih => simp [renameItems, ih]

@[simp] lemma renameFields_eq (fields : List (String × Value)) :
    renameFields ρ fields = fields.map (Prod.map id (rename ρ)) := by
  induction fields with
  | nil => rfl
  | cons p rest ih =>
    obtain ⟨key, v⟩ := p
    rw [renameFields, ih]
    rfl

lemma rename_array (items : List Value) :
    (Value.array items).rename ρ = .array (items.map (rename ρ)) := by
  rw [rename, renameItems_eq]

mutual

/-- Frames that keep their numbers. -/
@[simp] lemma rename_id : ∀ v : Value, v.rename id = v
  | .nil | .bool _ | .number _ | .str _ | .function _ _ | .builtin _ => rfl
  | .array items => by rw [rename, renameItems_id items]
  | .object fields => by rw [rename, renameFields_id fields]

lemma renameItems_id : ∀ vs : List Value, renameItems id vs = vs
  | [] => rfl
  | v :: rest => by rw [renameItems, rename_id v, renameItems_id rest]

lemma renameFields_id : ∀ fields : List (String × Value), renameFields id fields = fields
  | [] => rfl
  | (k, v) :: rest => by rw [renameFields, rename_id v, renameFields_id rest]

end

@[simp] lemma isTruthy_rename (v : Value) : (v.rename ρ).isTruthy = v.isTruthy := by
  cases v <;> simp [rename, isTruthy]

@[simp] lemma typeName_rename (v : Value) : (v.rename ρ).typeName = v.typeName := by
  cases v <;> simp [rename, typeName]

@[simp] lemma isCallable_rename (v : Value) : (v.rename ρ).isCallable = v.isCallable := by
  cases v <;> simp [rename, isCallable]

mutual

lemma toJson_rename : ∀ v : Value, (v.rename ρ).toJson = v.toJson
  | .nil | .bool _ | .number _ | .str _ | .function _ _ | .builtin _ => by simp [rename, toJson]
  | .array items => by
    rw [rename, toJson, toJson, toJsonItems_rename items]
  | .object fields => by
    rw [rename, toJson, toJson, toJsonFields_rename fields]

lemma toJsonItems_rename : ∀ vs : List Value, toJsonItems (renameItems ρ vs) = toJsonItems vs
  | [] => rfl
  | v :: rest => by
    rw [renameItems, toJsonItems, toJsonItems, toJson_rename v, toJsonItems_rename rest]

lemma toJsonFields_rename :
    ∀ fields : List (String × Value), toJsonFields (renameFields ρ fields) = toJsonFields fields
  | [] => rfl
  | (k, v) :: rest => by
    rw [renameFields, toJsonFields, toJsonFields, toJson_rename v, toJsonFields_rename rest]

end

mutual

@[simp] lemma display_rename : ∀ v : Value, (v.rename ρ).display = v.display
  | .nil | .bool _ | .number _ | .str _ | .function _ _ | .builtin _ => by simp [rename, display]
  | .array items => by
    rw [rename, display, display, displayItems_rename items]
  | .object fields => by
    rw [rename, display, display, toJson, toJson, toJsonFields_rename ρ fields]

lemma displayItems_rename : ∀ vs : List Value, displayItems (renameItems ρ vs) = displayItems vs
  | [] => rfl
  | [v] => by simp only [renameItems, displayItems, display_rename v]
  | v :: w :: rest => by
    have hrest := displayItems_rename (w :: rest)
    simp only [renameItems, displayItems, display_rename v] at hrest ⊢
    rw [hrest]

end

@[simp] lemma printText_rename (v : Value) : (v.rename ρ).printText = v.printText := by
  have hjson := toJson_rename ρ v
  have hdisplay := display_rename ρ v
  cases v with
  | array items => exact congrArg Json.pretty hjson
  | object fields => exact congrArg Json.pretty hjson
  | _ => exact hdisplay

mutual

@[simp] lemma looseEq_rename : ∀ v w : Value, (v.rename ρ).looseEq (w.rename ρ) = v.looseEq w
  | .array xs, .array ys => by
    rw [rename, rename, looseEq, looseEq, looseEqItems_rename xs ys]
  | .object xs, .object ys => by
    rw [rename, rename, looseEq, looseEq, looseEqFields_rename xs ys]
  | .nil, w | .bool _, w | .number _, w | .str _, w | .function _ _, w | .builtin _, w => by
    cases w <;> simp [rename, looseEq]
  | .array _, .nil | .array _, .bool _ | .array _, .number _ | .array _, .str _
  | .array _, .object _ | .array _, .function _ _ | .array _, .builtin _ => by
    simp [rename, looseEq]
  | .object _, .nil | .object _, .bool _ | .object _, .number _ | .object _, .str _
  | .object _, .array _ | .object _, .function _ _ | .object _, .builtin _ => by
    simp [rename, looseEq]

lemma looseEqItems_rename : ∀ vs ws : List Value,
    looseEqItems (renameItems ρ vs) (renameItems ρ ws) = looseEqItems vs ws
  | [], [] | [], _ :: _ | _ :: _, [] => rfl
  | v :: vs, w :: ws => by
    rw [renameItems, renameItems, looseEqItems, looseEqItems, looseEq_rename v w,
      looseEqItems_rename vs ws]

lemma looseEqFields_rename : ∀ xs ys : List (String × Value),
    looseEqFields (renameFields ρ xs) (renameFields ρ ys) = looseEqFields xs ys
  | [], [] | [], _ :: _ | _ :: _, [] => rfl
  | (k, v) :: xs, (l, w) :: ys => by
    rw [renameFields, renameFields, looseEqFields, looseEqFields, looseEq_rename v w,
      looseEqFields_rename xs ys]

end

@[simp] lemma rename_failure (message : String) : (failure message).rename ρ = failure message := by
  simp [failure, rename]

@[simp] lemma rename_toValue (o : Outcome) : o.toValue.rename ρ = o.toValue := by
  cases o <;> simp [Outcome.toValue, rename]

end Value

open Value

/-! ### Tables -/

section

variable {α β : Type}

lemma get?_map (f : α → β) (key : String) (table : Keyed α) :
    Keyed.get? key (table.map (Prod.map id f)) = (Keyed.get? key table).map f := by
  induction table with
  | nil => rfl
  | cons entry rest ih =>
    obtain ⟨k, a⟩ := entry
    by_cases hk : k = key
    · simp [Keyed.get?, hk]
    · simp [Keyed.get?, hk, ih]

lemma put_map (f : α → β) (key : String) (a : α) (table : Keyed α) :
    Keyed.put key (f a) (table.map (Prod.map id f)) =
      (Keyed.put key a table).map (Prod.map id f) := by
  induction table with
  | nil => rfl
  | cons entry rest ih =>
    obtain ⟨k, b⟩ := entry
    by_cases hk : k = key
    · simp [Keyed.put, hk]
    · by_cases hlt : key < k
      · simp [Keyed.put, hk, hlt]
      · simp [Keyed.put, hk, hlt, ih]

end

/-! ### Operators -/

lemma expectNumber_rename (v : Value) (what : String) :
    expectNumber (v.rename ρ) what = expectNumber v what := by
  cases v <;> simp [rename, expectNumber, typeName]

lemma mismatch_rename (op : Script.BinaryOp) (l r : Value) :
    mismatch op (l.rename ρ) (r.rename ρ) = mismatch op l r := by
  have hl := typeName_rename ρ l
  have hr := typeName_rename ρ r
  unfold mismatch
  rw [hl, hr]

lemma sum_rename (l r : Value) : sum (l.rename ρ) (r.rename ρ) = (sum l r).map (rename ρ) := by
  have hwrong := congrArg (Except.error (α := Value)) (mismatch_rename ρ .add l r)
  cases l with
  | str a =>
    have hjoined := congrArg (fun text => Except.ok (ε := String) (Value.str (a ++ text)))
      (display_rename ρ r)
    exact hjoined
  | number x =>
    cases r with
    | number y => rfl
    | str b => rfl
    | _ => exact hwrong
  | _ =>
    cases r with
    | str b =>
      refine congrArg (fun text => Except.ok (ε := String) (Value.str (text ++ b))) ?_
      exact display_rename ρ _
    | _ => exact hwrong

lemma arithmetic_rename (op : Script.BinaryOp) (f : Float → Float → Float) (l r : Value) :
    arithmetic op f (l.rename ρ) (r.rename ρ) = (arithmetic op f l r).map (rename ρ) := by
  have hwrong := congrArg (Except.error (α := Value)) (mismatch_rename ρ op l r)
  cases l <;> cases r <;> first | exact hwrong | rfl

lemma ordering?_rename (op : Script.BinaryOp) (l r : Value) :
    ordering? op (l.rename ρ) (r.rename ρ) = ordering? op l r := by
  have hwrong := congrArg (Except.error (α := Option Ordering)) (mismatch_rename ρ op l r)
  cases l <;> cases r <;> first | exact hwrong | rfl

theorem applyBinary_rename (op : Script.BinaryOp) (l r : Value) :
    applyBinary op (l.rename ρ) (r.rename ρ) = (applyBinary op l r).map (rename ρ) := by
  have hcompare : ∀ (x : Except String (Option Ordering)) (f : Option Ordering → Bool),
      (x >>= fun o => (pure (.bool (f o)) : Except String Value)) =
        (x >>= fun o => (pure (.bool (f o)) : Except String Value)).map (rename ρ) := by
    intro x f
    cases x <;> simp [bind, Except.bind, pure, Except.pure, Except.map, rename]
  cases op with
  | add => exact sum_rename ρ l r
  | sub => exact arithmetic_rename ρ _ _ l r
  | mul => exact arithmetic_rename ρ _ _ l r
  | div => exact arithmetic_rename ρ _ _ l r
  | rem => exact arithmetic_rename ρ _ _ l r
  | eq => simp [applyBinary, Except.map, rename]
  | notEq => simp [applyBinary, Except.map, rename]
  | lt | le | gt | ge =>
    simp only [applyBinary, ordering?_rename]
    exact hcompare _ _
  | and =>
    simp only [applyBinary, isTruthy_rename, Except.map]
    split <;> rfl
  | or =>
    simp only [applyBinary, isTruthy_rename, Except.map]
    split <;> rfl

lemma getD_get?_rename (fields : List (String × Value)) (key : String) :
    (Keyed.get? key (fields.map (Prod.map id (rename ρ)))).getD .nil =
      ((Keyed.get? key fields).getD .nil).rename ρ := by
  rw [get?_map]
  cases Keyed.get? key fields <;> simp [rename]

lemma getD_getElem?_rename (items : List Value) (i : Nat) :
    ((items.map (rename ρ))[i]?).getD .nil = ((items[i]?).getD .nil).rename ρ := by
  rw [List.getElem?_map]
  cases items[i]? <;> simp [rename]

theorem member_rename (o : Value) (property : String) :
    member (o.rename ρ) property = (member o property).map (rename ρ) := by
  cases o with
  | object fields => simp [rename, member, Except.map, getD_get?_rename]
  | str s => by_cases h : property = "length" <;> simp [rename, member, Except.map, h]
  | array items => by_cases h : property = "length" <;> simp [rename, member, Except.map, h]
  | _ => simp [rename, member, Except.map]

theorem elementOf_rename (o i : Value) :
    elementOf (o.rename ρ) (i.rename ρ) = (elementOf o i).map (rename ρ) := by
  have hitems : ∀ (items : List Value) (n : Option Nat),
      ((n.bind ((items.map (rename ρ))[·]?)).getD .nil) =
        ((n.bind (items[·]?)).getD .nil).rename ρ := by
    intro items n
    cases n with
    | none => simp [rename]
    | some k => exact getD_getElem?_rename ρ items k
  have hchars : ∀ c? : Option Char, (c?.elim Value.nil fun c => .str c.toString) =
      (c?.elim Value.nil fun c => .str c.toString).rename ρ := by
    intro c?
    cases c? <;> simp [rename]
  have hobject : ∀ (fields : List (String × Value)) (key : String),
      elementOf ((Value.object fields).rename ρ) (.str key) =
        (member (.object fields) key).map (rename ρ) := by
    intro fields key
    rw [← member_rename]
    rfl
  cases o with
  | array items =>
    cases i with
    | number x =>
      simp only [rename, elementOf, Except.map, renameItems_eq]
      rw [hitems items (position? x)]
    | _ => simp [rename, elementOf, Except.map, typeName]
  | str s =>
    cases i with
    | number x => exact congrArg Except.ok (hchars _)
    | _ => simp [rename, elementOf, Except.map, typeName]
  | object fields =>
    cases i with
    | str key => exact hobject fields key
    | _ => simp [rename, elementOf, Except.map, typeName]
  | _ => cases i <;> simp [rename, elementOf, Except.map, typeName]

/-- A step to an element with other numbers for the frames in its index. -/
def Key.rename : Key → Key
  | .field name => .field name
  | .index v => .index (v.rename ρ)

lemma padded_rename (items : List Value) (n : Nat) :
    padded (items.map (rename ρ)) n = (padded items n).map (rename ρ) := by
  simp [padded, rename]

theorem setPath_rename (v : Value) : ∀ (path : List Key) (c : Value),
    setPath (c.rename ρ) (path.map (Key.rename ρ)) (v.rename ρ) =
      (setPath c path v).map (rename ρ) := by
  intro path
  induction path with
  | nil =>
    intro c
    rfl
  | cons key rest ih =>
    intro c
    -- the two ways into an object differ only in how the field is named
    have hobject : ∀ (fields : List (String × Value)) (name : String),
        (do let e ← setPath ((Keyed.get? name (fields.map (Prod.map id (rename ρ)))).getD .nil)
              (rest.map (Key.rename ρ)) (v.rename ρ)
            return Value.object (Keyed.put name e (fields.map (Prod.map id (rename ρ))))) =
          (do let e ← setPath ((Keyed.get? name fields).getD .nil) rest v
              return Value.object (Keyed.put name e fields)).map (rename ρ) := by
      intro fields name
      rw [getD_get?_rename, ih]
      cases setPath ((Keyed.get? name fields).getD .nil) rest v with
      | error m => rfl
      | ok e =>
        show Except.ok _ = Except.ok _
        rw [rename, renameFields_eq, put_map]
    have hwrong : ∀ (w : Value) (k : Key), (∀ fields, w ≠ .object fields) →
        (∀ items, w ≠ .array items) →
        setPath (w.rename ρ) ((k :: rest).map (Key.rename ρ)) (v.rename ρ) =
          (setPath w (k :: rest) v).map (rename ρ) := by
      intro w k hobject harray
      cases w with
      | object fields => exact absurd rfl (hobject fields)
      | array items => exact absurd rfl (harray items)
      | _ => simp [rename, setPath, Except.map, typeName]
    cases c with
    | object fields =>
      cases key with
      | field name =>
        simp only [rename, renameFields_eq, List.map_cons, Key.rename, setPath]
        exact hobject fields name
      | index i =>
        cases i with
        | str name =>
          simp only [rename, renameFields_eq, List.map_cons, Key.rename, setPath]
          exact hobject fields name
        | _ => simp [rename, Key.rename, setPath, Except.map, typeName]
    | array items =>
      cases key with
      | field name => simp [rename, Key.rename, setPath, Except.map, typeName]
      | index i =>
        cases i with
        | number x =>
          simp only [rename, renameItems_eq, List.map_cons, Key.rename, setPath, List.length_map]
          cases (position? x).filter fun i => decide (i ≤ items.length + maxGap) with
          | none => rfl
          | some i =>
            simp only [padded_rename, getD_getElem?_rename, ih]
            cases setPath ((padded items (i + 1))[i]?.getD .nil) rest v with
            | error m => rfl
            | ok e =>
              show Except.ok _ = Except.ok _
              rw [rename, renameItems_eq, List.map_set]
        | _ => simp [rename, Key.rename, setPath, Except.map, typeName]
    | _ => exact hwrong _ key (fun _ h => by cases h) (fun _ h => by cases h)

lemma thrownMessage_rename (v : Value) : thrownMessage (v.rename ρ) = thrownMessage v := by
  have hdisplay := display_rename ρ v
  cases v with
  | object fields =>
    simp only [rename, renameFields_eq] at hdisplay
    simp only [rename, renameFields_eq, thrownMessage, get?_map]
    cases Keyed.get? "message" fields with
    | none => simpa using hdisplay
    | some w => simp
  | _ => exact hdisplay

/-! ### Frames, tasks and statements -/

/-- The frame with other numbers for the frames around it and in its values. -/
def Frame.rename (f : Frame) : Frame where
  bindings := f.bindings.map (Prod.map id fun b => { b with value := b.value.rename ρ })
  outer := f.outer.map ρ

/-- The request with other numbers for the frames in its values. -/
def Request.rename : Request → Request
  | .call f args => .call (f.rename ρ) (args.map (Value.rename ρ))
  | .invoke name args => .invoke name (args.map (Value.rename ρ))
  | .emit kind text => .emit kind text
  | .clear => .clear
  | .sleep millis => .sleep millis
  | .change c => .change c
  | .read path => .read path
  | .tasks => .tasks

/-- The reply with other numbers for the frames in its value. -/
def Request.renameReply : (request : Request) → request.Reply → (request.rename ρ).Reply
  | .call .., reply | .invoke .., reply => reply.map (Value.rename ρ)
  | .emit .., reply | .clear, reply | .sleep _, reply | .change _, reply | .read _, reply
  | .tasks, reply => reply

/-- The second procedure of the host does what the first does, with other numbers for the frames in
all values that it asks with, is replied, ends with, or hands to procedures that it registers. -/
inductive Action.Renamed : Action → Action → Prop where
  | done (v : Value) : Action.Renamed (.done v) (.done (v.rename ρ))
  | fail (e : Error) : Action.Renamed (.fail e) (.fail e)
  | ask {request : Request} {next : request.Reply → Action}
      {next' : (request.rename ρ).Reply → Action}
      (h : ∀ reply, Action.Renamed (next reply) (next' (request.renameReply ρ reply))) :
      Action.Renamed (.ask request next) (.ask (request.rename ρ) next')
  | register {name description : String} {run run' : List Value → Action} {next next' : Action}
      (hrun : ∀ args, Action.Renamed (run args) (run' (args.map (rename ρ))))
      (hnext : Action.Renamed next next') :
      Action.Renamed (.register name description run next) (.register name description run' next')

/-- What is run when a task is, with other numbers for the frames. -/
inductive Handler.Renamed : Handler → Handler → Prop where
  | script (code : Function) (frame : FrameId) :
      Handler.Renamed (.script code frame) (.script code (ρ frame))
  | host {run run' : List Value → Action} (inRun : Bool)
      (h : ∀ args, (run args).Renamed ρ (run' (args.map (rename ρ)))) :
      Handler.Renamed (.host run inRun) (.host run' inRun)

/-- A procedure of the host that does the same whatever the numbers of the frames in its arguments
and in what it is replied: it can hand a function on or call it, and that is all it can do with
one. -/
def BlindTo (run : List Value → Action) : Prop :=
  ∀ args, (run args).Renamed ρ (run (args.map (rename ρ)))

namespace Action

variable {ρ}

lemma Renamed.emit {kind : LineKind} {text : String} {next next' : Action}
    (h : next.Renamed ρ next') : (Action.emit kind text next).Renamed ρ (.emit kind text next') :=
  @Renamed.ask ρ (.emit kind text) _ _ fun _ => h

lemma Renamed.change {c : Change} {next next' : Outcome → Action}
    (h : ∀ o, (next o).Renamed ρ (next' o)) :
    (Action.change c next).Renamed ρ (.change c next') := by
  refine @Renamed.ask ρ (.change c) _ _ fun reply => ?_
  cases reply with
  | ok o => exact h o
  | error e => exact .fail e

lemma Renamed.createFiles {next next' : Action} (h : next.Renamed ρ next') :
    ∀ files : List (String × String),
      (Action.createFiles files next).Renamed ρ (.createFiles files next')
  | [] => h
  | _ :: rest => .change fun _ => h.createFiles rest

end Action

/-! ### Frames that keep their numbers -/

lemma map_rename_id (args : List Value) : args.map (rename id) = args :=
  List.map_id'' Value.rename_id args

lemma map_rename_id_reply (reply : Except Error Value) : reply.map (rename id) = reply := by
  cases reply with
  | ok v => exact congrArg Except.ok (Value.rename_id v)
  | error e => rfl

/-- A request for which all frames keep their numbers. -/
lemma ask_rename_id (request : Request) (next : request.Reply → Action) :
    ∃ next' : (request.rename id).Reply → Action,
      Action.ask (request.rename id) next' = .ask request next ∧
      ∀ reply, next' (request.renameReply id reply) = next reply := by
  cases request with
  | call f args =>
    refine ⟨next, ?_, fun reply => congrArg next (map_rename_id_reply reply)⟩
    show Action.ask (.call (f.rename id) (args.map (rename id))) next = _
    rw [Value.rename_id, map_rename_id]
  | invoke name args =>
    refine ⟨next, ?_, fun reply => congrArg next (map_rename_id_reply reply)⟩
    show Action.ask (.invoke name (args.map (rename id))) next = _
    rw [map_rename_id]
  | _ => exact ⟨next, rfl, fun _ => rfl⟩

lemma Action.renamed_id (a : Action) : a.Renamed id a := by
  induction a with
  | done v =>
    have hdone := Action.Renamed.done (ρ := id) v
    rwa [Value.rename_id] at hdone
  | fail e => exact .fail e
  | ask request next ih =>
    obtain ⟨next', heq, hnext⟩ := ask_rename_id request next
    have hask : (Action.ask request next).Renamed id (.ask (request.rename id) next') :=
      .ask fun reply => by rw [hnext]; exact ih reply
    rwa [heq] at hask
  | register name description run next ihrun ih =>
    exact .register (fun args => by rw [map_rename_id]; exact ihrun args) ih

lemma blindTo_id (run : List Value → Action) : BlindTo id run := by
  intro args
  rw [map_rename_id]
  exact (run args).renamed_id

lemma Handler.renamed_id : ∀ handler : Handler, handler.Renamed id handler
  | .script code frame => .script code frame
  | .host run inRun => .host inRun (blindTo_id run)

/-- Procedures that do the same when all frames keep their numbers are the same. -/
lemma Action.Renamed.eq {a b : Action} (h : a.Renamed id b) : a = b := by
  induction h with
  | done v => rw [Value.rename_id]
  | fail e => rfl
  | @ask request next next' _ ih =>
    cases request with
    | call f args =>
      have hnext : (next : Except Error Value → Action) = next' := funext fun reply =>
        (ih reply).trans (congrArg next' (map_rename_id_reply reply))
      show _ = Action.ask (.call (f.rename id) (args.map (rename id))) next'
      rw [Value.rename_id, map_rename_id, ← hnext]
    | invoke name args =>
      have hnext : (next : Except Error Value → Action) = next' := funext fun reply =>
        (ih reply).trans (congrArg next' (map_rename_id_reply reply))
      show _ = Action.ask (.invoke name (args.map (rename id))) next'
      rw [map_rename_id, ← hnext]
    | _ => exact congrArg _ (funext ih)
  | @register name description run run' next next' _ _ ihrun ih =>
    have hrun : run = run' := funext fun args => by rw [ihrun args, map_rename_id]
    rw [hrun, ih]

namespace Flow

/-- How a statement ends, with other numbers for the frames in its value. -/
def rename : Flow → Flow
  | .return v => .return (v.rename ρ)
  | .normal => .normal
  | .break => .break
  | .continue => .continue

@[simp] lemma result_rename (flow : Flow) : (flow.rename ρ).result = flow.result.rename ρ := by
  cases flow <;> rfl

@[simp] lemma isStray_rename (flow : Flow) : (flow.rename ρ).isStray = flow.isStray := by
  cases flow <;> rfl

lemma leavesLoop?_rename (flow : Flow) :
    (flow.rename ρ).leavesLoop? = flow.leavesLoop?.map (rename ρ) := by
  cases flow <;> rfl

end Flow

end ScriptedNotes.Run
